import AppCore.Supervisor.Concurrent

/-!
# At most one restart is in flight

* `one_in_flight` — in a run in which no thread writes a restart down as scheduled while the service is
  `Stopping`, no service has two restarts in flight, and one that is `Stopping` has one.

The invariant (`Balanced`) counts: a restart is in flight exactly when the state of the service is
`Stopping`, or the loop has handed it to the executor and is about to write that state down.
-/

namespace AppCore.Supervisor

open Prog SupervisorInner

variable {W : Type}

/-! ## The invariant -/

/-- The service whose restart the executor has, while the loop has yet to write that down. -/
def LoopPhase.enqueued : LoopPhase W → Option String
  | .marking name _ => some name
  | _ => none

/-- The services whose restarts the loop has found to be due. -/
def LoopPhase.dueNames : LoopPhase W → List String
  | .dispatching due => due.map Prod.fst
  | .marking name due => name :: due.map Prod.fst
  | _ => []

/-- The service for which the loop has found that no restart is active. -/
def LoopPhase.chosen : LoopPhase W → Option String
  | .scheduling task _ =>
    if task.phase = .checking then none else some task.service.descriptor.name
  | _ => none

/-- A restart is in flight exactly when the records or the loop say so. -/
structure Balanced (s : SupervisorInner W) (loop : LoopPhase W) : Prop where
  registered : ∀ name, name ∈ s.records → name ∈ s.services.map
  count : ∀ name, inFlight name s.restartExecutor loop =
    (if restartStateOf name s = some .stopping then 1 else 0) +
      if loop.enqueued = some name then 1 else 0
  nodup : loop.dueNames.Nodup
  scheduled : ∀ name ∈ loop.dueNames, ∃ executeAtMs,
    restartStateOf name s = some (.scheduled executeAtMs)
  chosen : ∀ name, loop.chosen = some name → restartStateOf name s ≠ some .stopping

section

variable {s t : SupervisorInner W} {loop next : LoopPhase W} {name : String}

theorem mem_records_of_state {state : RestartState} (h : restartStateOf name s = some state) :
    name ∈ s.records := by
  obtain ⟨record, hrecord, -⟩ := Option.map_eq_some_iff.1 h
  rw [Std.ExtTreeMap.mem_iff_isSome_getElem?, hrecord]
  rfl

theorem Balanced.oneInFlight {c : ConcurrentSupervisor W} (h : Balanced c.inner c.loop) :
    OneInFlight c := by
  have hone (name : String) : ¬ (restartStateOf name c.inner = some .stopping ∧
      c.loop.enqueued = some name) := by
    intro hboth
    obtain ⟨hstopping, henqueued⟩ := hboth
    have hdue : name ∈ c.loop.dueNames := by
      generalize c.loop = loop at henqueued ⊢
      cases loop with
      | marking other due =>
        cases henqueued
        exact List.mem_cons_self
      | _ => cases henqueued
    obtain ⟨executeAtMs, hscheduled⟩ := h.scheduled name hdue
    rw [hstopping] at hscheduled
    cases hscheduled
  refine ⟨fun name => ?_, fun name hstopping => ?_⟩
  · rw [h.count name]
    by_cases hstopping : restartStateOf name c.inner = some .stopping
    · rw [if_pos hstopping, if_neg fun henqueued => hone name ⟨hstopping, henqueued⟩]
    · rw [if_neg hstopping]
      split <;> omega
  · rw [h.count name, if_pos hstopping, if_neg fun henqueued => hone name ⟨hstopping, henqueued⟩]

theorem Balanced.goOn (h : Balanced s loop) (hreceived : loop.received = [])
    (henqueued : loop.enqueued = none) (hreceived' : next.received = [])
    (henqueued' : next.enqueued = none) (hnodup : next.dueNames.Nodup)
    (hscheduled : ∀ name ∈ next.dueNames, ∃ executeAtMs,
      restartStateOf name s = some (.scheduled executeAtMs))
    (hchosen : ∀ name, next.chosen = some name → restartStateOf name s ≠ some .stopping) :
    Balanced s next := by
  refine ⟨h.registered, fun name => ?_, hnodup, hscheduled, hchosen⟩
  have hcount := h.count name
  unfold inFlight at hcount ⊢
  rw [hreceived, henqueued] at hcount
  rw [hreceived', henqueued']
  exact hcount

/-- The states of the restarts are the same, and so is the executor. -/
def SameState (_ : String) (old new : RuntimeRecord) : Prop := new.restartState = old.restartState

theorem sameState_of_same (name : String) (old new : RuntimeRecord) (h : SameRestarts old new) :
    SameState name old new :=
  h.restartState

theorem restartStateOf_framed {quiet : Prop} (h : Framed SameState quiet s t) (name : String) :
    restartStateOf name t = restartStateOf name s := by
  have hrel := h.records name
  unfold restartStateOf
  generalize s.records[name]? = old, t.records[name]? = new at hrel ⊢
  cases hrel with
  | none => rfl
  | some hsame => exact congrArg some hsame

theorem Balanced.framed (h : Balanced s loop) (hframed : Framed SameState True s t) :
    Balanced t loop := by
  have hstate := restartStateOf_framed hframed
  refine ⟨fun name hname => ?_, fun name => ?_, h.nodup, fun name hdue => ?_, fun name hchosen => ?_⟩
  · rw [hframed.services]
    exact h.registered name (hframed.mem_records.1 hname)
  · rw [hframed.executor trivial, hstate]
    exact h.count name
  · rw [hstate]
    exact h.scheduled name hdue
  · rw [hstate]
    exact h.chosen name hchosen

theorem framed_final {α : Type} {call : Call W α} (h : Moves (Framed SameState True) call)
    (s : SupervisorInner W) : Framed SameState True s (call.final s) :=
  h.final (fun _ => Framed.rfl' fun _ _ => rfl)
    (fun _ _ _ => Framed.trans fun _ _ _ _ hfirst hsecond => hsecond.trans hfirst) s

/-! ## Scheduling a restart -/

/-- The state of the restart of a service changes at most to `Scheduled`, and at most at the last
step. -/
def MayMark (task : Scheduling W) (name : String) (old new : RuntimeRecord) : Prop :=
  new.restartState = old.restartState ∨
    (∃ executeAtMs, task.phase = .marking executeAtMs) ∧ name = task.service.descriptor.name ∧
      ∃ executeAtMs, new.restartState = .scheduled executeAtMs

theorem mayMark_of_same (task : Scheduling W) (name : String) (old new : RuntimeRecord)
    (h : SameRestarts old new) : MayMark task name old new :=
  Or.inl h.restartState

theorem moves_advance (task : Scheduling W) :
    Moves (Framed (MayMark task) True) task.advance := by
  obtain ⟨service, timestampMs, phase⟩ := task
  cases phase with
  | checking =>
    dsimp only [Scheduling.advance]
    split
    · exact moves_pure none
    · refine moves_bind (moves_bind (moves_read _) fun _ => moves_pure _) fun active => ?_
      split
      · exact moves_pure none
      · exact moves_pure _
  | budgeting =>
    refine moves_bind (moves_consumeRestartBudget (mayMark_of_same _) ?_ timestampMs) fun _ =>
      moves_pure _
    exact fun old new hstate => Or.inl hstate
  | drawing => exact moves_bind (moves_jitter (mayMark_of_same _) _) fun _ => moves_pure _
  | marking executeAtMs =>
    refine moves_bind (moves_changeRecord (mayMark_of_same _) _ fun record => ?_) fun _ =>
      moves_pure none
    exact Or.inr ⟨⟨executeAtMs, rfl⟩, rfl, executeAtMs, rfl⟩

variable {task : Scheduling W}

theorem mayMark_trans {a b c : RuntimeRecord} (h : MayMark task name a b)
    (h' : MayMark task name b c) : MayMark task name a c := by
  rcases h' with hsame | hmarked
  · unfold MayMark
    rwa [hsame]
  · exact Or.inr hmarked

theorem framed_advance (task : Scheduling W) (s : SupervisorInner W) :
    Framed (MayMark task) True s (task.advance.final s) :=
  (moves_advance task).final (fun _ => Framed.rfl' fun _ _ => Or.inl rfl)
    (fun _ _ _ => Framed.trans fun _ _ _ _ => mayMark_trans) s

theorem restartStateOf_marked (h : Framed (MayMark task) True s t) (name : String) :
    restartStateOf name t = restartStateOf name s ∨
      (∃ executeAtMs, task.phase = .marking executeAtMs) ∧ name = task.service.descriptor.name ∧
        ∃ executeAtMs, restartStateOf name t = some (.scheduled executeAtMs) := by
  have hrel := h.records name
  unfold restartStateOf
  generalize s.records[name]? = old, t.records[name]? = new at hrel ⊢
  cases hrel with
  | none => exact Or.inl rfl
  | some hmay =>
    rcases hmay with hsame | ⟨hphase, hname, executeAtMs, hscheduled⟩
    · exact Or.inl (congrArg some hsame)
    · exact Or.inr ⟨hphase, hname, executeAtMs, congrArg some hscheduled⟩

/-- A step of `schedule_restart` keeps the balance, unless it overwrites the state `Stopping`. -/
theorem Balanced.marked (h : Balanced s loop) (hframed : Framed (MayMark task) True s t)
    (hfree : (∃ executeAtMs, task.phase = .marking executeAtMs) →
      restartStateOf task.service.descriptor.name s ≠ some .stopping) : Balanced t loop := by
  have hstopping (name : String) :
      restartStateOf name t = some .stopping ↔ restartStateOf name s = some .stopping := by
    rcases restartStateOf_marked hframed name with hsame | ⟨hphase, rfl, executeAtMs, hscheduled⟩
    · rw [hsame]
    · rw [hscheduled]
      exact ⟨nofun, fun hstop => absurd hstop (hfree hphase)⟩
  refine ⟨fun name hname => ?_, fun name => ?_, h.nodup, fun name hdue => ?_, fun name hchosen => ?_⟩
  · rw [hframed.services]
    exact h.registered name (hframed.mem_records.1 hname)
  · rw [hframed.executor trivial, h.count name]
    simp only [hstopping]
  · rcases restartStateOf_marked hframed name with hsame | ⟨-, -, hscheduled⟩
    · rw [hsame]
      exact h.scheduled name hdue
    · exact hscheduled
  · rw [Ne, hstopping]
    exact h.chosen name hchosen

theorem wp_inactive (name : String) (s : SupervisorInner W) :
    (restartIsActive name).wp (fun _ => True)
      (fun r t => t = s ∧ (r = .ok false → restartStateOf name s ≠ some .stopping)) s := by
  rw [restartIsActive, record, wp_read_bind]
  refine ⟨fun found hfound => wp_pure.2 ⟨rfl, fun hinactive hstopping => ?_⟩, fun _ _ => ⟨rfl, fun hfound => ?_⟩⟩
  · obtain ⟨record, hrecord, hstate⟩ := Option.map_eq_some_iff.1 hstopping
    rw [hrecord] at hfound
    cases hfound
    rw [hstate, Bool.or_true] at hinactive
    cases hinactive
  · cases hfound

theorem wp_checking (service : ManagedService W) (timestampMs : UInt64) (s : SupervisorInner W) :
    (Scheduling.advance { service, timestampMs, phase := .checking }).wp (fun _ => True)
      (fun r t => t = s ∧ ∀ phase, r = .ok (some phase) →
        restartStateOf service.descriptor.name s ≠ some .stopping) s := by
  dsimp only [Scheduling.advance]
  split
  · exact wp_pure.2 ⟨rfl, nofun⟩
  · rw [wp_bind]
    refine wp_mono (wp_inactive _ s) (fun _ => id) fun r t ht => ?_
    obtain ⟨rfl, hstate⟩ := ht
    cases r with
    | error error => exact ⟨rfl, nofun⟩
    | ok active =>
      cases active with
      | true => exact wp_pure.2 ⟨rfl, nofun⟩
      | false => exact wp_pure.2 ⟨rfl, fun _ _ => hstate rfl⟩

/-! ## The steps of the loop -/

/-- Where the loop is after a step. -/
def LoopPhase.after : Except SupervisorError (LoopPhase W) → LoopPhase W
  | .ok phase => phase
  | .error _ => .idle

theorem Balanced.free (h : Balanced s loop) (hreceived : loop.received = [])
    (henqueued : loop.enqueued = none) (hreceived' : next.received = [])
    (henqueued' : next.enqueued = none) (hdue : next.dueNames = []) (hchosen : next.chosen = none) :
    Balanced s next := by
  refine h.goOn hreceived henqueued hreceived' henqueued' ?_ ?_ ?_
  · rw [hdue]
    exact List.nodup_nil
  · rw [hdue]
    nofun
  · rw [hchosen]
    nofun

theorem moves_observeService (name : String) :
    Moves (Framed SameState True) (LoopPhase.observeService name : Call W _) := by
  refine moves_bind (moves_read _) fun service => ?_
  split
  · exact moves_pure none
  · refine moves_bind (moves_firstUnavailable sameState_of_same _) fun found => ?_
    cases found with
    | some dependency =>
      exact moves_bind (moves_ask sameState_of_same _) fun _ =>
        moves_bind (moves_updateRecord sameState_of_same _ _ _) fun _ => moves_pure none
    | none =>
      exact moves_bind (moves_health sameState_of_same service) fun _ =>
        moves_bind (moves_ask sameState_of_same _) fun _ =>
          moves_bind (moves_updateRecord sameState_of_same _ _ _) fun _ => moves_pure _

/-- The restart of a service is over. -/
structure Applied (name : String) (s t : SupervisorInner W) : Prop where
  services : t.services = s.services
  executor : t.restartExecutor = s.restartExecutor
  mem_records : ∀ other, other ∈ t.records → other ∈ s.records
  others : ∀ other, other ≠ name → restartStateOf other t = restartStateOf other s
  finished : restartStateOf name t ≠ some .stopping

theorem applied_modify {f : RuntimeRecord → RuntimeRecord} {t : SupervisorInner W}
    (hservices : t.services = s.services) (hexecutor : t.restartExecutor = s.restartExecutor)
    (hrecords : t.records = s.records.modify name f)
    (hf : ∀ record, (f record).restartState ≠ .stopping) : Applied name s t := by
  refine ⟨hservices, hexecutor, fun other hother => ?_, fun other hne => ?_, ?_⟩
  · rw [hrecords] at hother
    exact Std.ExtTreeMap.mem_modify.1 hother
  · unfold restartStateOf
    rw [hrecords, lookup_modify, if_neg (Ne.symm hne)]
  · unfold restartStateOf
    rw [hrecords, lookup_modify, if_pos rfl, Option.map_map]
    intro hstopping
    obtain ⟨record, -, hstate⟩ := Option.map_eq_some_iff.1 hstopping
    exact hf record hstate

variable {completion : RestartCompletion}

/-- A completion is applied to a service that is registered. -/
theorem wp_applyRestartCompletion (hservice : completion.serviceId ∈ s.services.map)
    (hrecord : completion.serviceId ∈ s.records) :
    (applyRestartCompletion completion).wp (fun _ => True)
      (fun r t => r = .ok () ∧ Applied completion.serviceId s t) s := by
  obtain ⟨service, hfound⟩ :=
    Option.isSome_iff_exists.1 (Std.ExtTreeMap.mem_iff_isSome_getElem?.1 hservice)
  rw [applyRestartCompletion, SupervisorInner.service, wp_read_bind, hfound]
  refine ⟨fun a ha => ?_, fun e he => ?_⟩
  swap
  · cases he
  cases ha
  cases completion.outcome with
  | restarted =>
    dsimp only
    rw [wp_bind]
    refine wp_health ?_
    dsimp only
    rw [wp_bind]
    refine wp_ask ?_
    apply wp_changeRecord
    · exact hrecord
    · refine ⟨rfl, applied_modify rfl rfl rfl fun record hstopping => ?_⟩
      cases hstopping
  | orphaned =>
    apply wp_changeRecord
    · exact hrecord
    · refine ⟨rfl, applied_modify rfl rfl rfl fun record hstopping => ?_⟩
      cases hstopping
  | failed =>
    dsimp only
    rw [wp_bind]
    refine wp_ask ?_
    apply wp_changeRecord
    · exact hrecord
    · refine ⟨rfl, applied_modify rfl rfl rfl fun record hstopping => ?_⟩
      cases hstopping
  | cancelled =>
    dsimp only
    rw [wp_bind]
    refine wp_ask ?_
    apply wp_changeRecord
    · exact hrecord
    · refine ⟨rfl, applied_modify rfl rfl rfl fun record hstopping => ?_⟩
      cases hstopping

variable {timestampMs : UInt64}

/-- A completion is applied, and the restart is not in flight any more. -/
theorem balanced_applied {completions : List RestartCompletion}
    (h : Balanced s (.applying timestampMs (completion :: completions)))
    (happlied : Applied completion.serviceId s t) :
    Balanced t (.applying timestampMs completions) := by
  refine ⟨fun name hname => ?_, fun name => ?_, List.nodup_nil, nofun, nofun⟩
  · rw [happlied.services]
    exact h.registered name (happlied.mem_records name hname)
  · have hcount := h.count name
    unfold inFlight LoopPhase.received LoopPhase.enqueued at hcount ⊢
    rw [happlied.executor]
    dsimp only at hcount ⊢
    rw [List.countP_cons] at hcount
    by_cases hname : completion.serviceId = name
    · subst hname
      rw [if_neg happlied.finished]
      rw [if_pos (decide_eq_true rfl)] at hcount
      split at hcount
      · simp only [reduceCtorEq, if_false] at hcount ⊢
        omega
      · simp only [reduceCtorEq, if_false] at hcount
        omega
    · rw [happlied.others name (Ne.symm hname)]
      rw [if_neg (by simpa using hname)] at hcount
      exact hcount

theorem Balanced.stopping_received {completions : List RestartCompletion}
    (h : Balanced s (.applying timestampMs (completion :: completions))) :
    restartStateOf completion.serviceId s = some .stopping := by
  by_contra hnot
  have hcount := h.count completion.serviceId
  unfold inFlight LoopPhase.received LoopPhase.enqueued at hcount
  dsimp only at hcount
  rw [List.countP_cons, if_neg hnot, if_pos (decide_eq_true rfl)] at hcount
  simp only [reduceCtorEq, if_false] at hcount
  omega

theorem Balanced.collect (h : Balanced s (.reconciling timestampMs [])) :
    Balanced s (.dispatching (dueRestarts timestampMs s)) := by
  refine h.goOn rfl rfl rfl rfl ?_ (fun name hname => ?_) nofun
  · change ((dueRestarts timestampMs s).map Prod.fst).Nodup
    unfold dueRestarts
    rw [List.map_map]
    exact (nodup_keys_toList s.records).sublist
      ((List.filter_sublist (l := s.records.toList)).map Prod.fst)
  · obtain ⟨restart, hmem, rfl⟩ := List.mem_map.1 hname
    obtain ⟨record, executeAtMs, hrecord, hstate⟩ := scheduled_of_due hmem
    exact ⟨executeAtMs, by rw [restartStateOf, hrecord, Option.map_some, hstate]⟩

/-- A restart that is due is handed to the executor. -/
theorem Balanced.enqueue {service : ManagedService W} {attempt : UInt64}
    {due : List (String × UInt64)} (h : Balanced s (.dispatching ((name, attempt) :: due)))
    (hnamed : service.descriptor.name = name) :
    Balanced { s with restartExecutor := { s.restartExecutor with
      commands := s.restartExecutor.commands ++ [{ service, attempt }]
      received := s.restartExecutor.received ++ [service.descriptor.name] } }
      (.marking name due) := by
  refine ⟨h.registered, fun other => ?_, h.nodup, h.scheduled, nofun⟩
  have hcount := h.count other
  unfold inFlight LoopPhase.received LoopPhase.enqueued at hcount ⊢
  dsimp only at hcount ⊢
  rw [List.countP_append, List.countP_singleton, hnamed]
  have hsame : restartStateOf other { s with restartExecutor := { s.restartExecutor with
      commands := s.restartExecutor.commands ++ [{ service, attempt }]
      received := s.restartExecutor.received ++ [name] } } = restartStateOf other s := rfl
  rw [hsame]
  by_cases hname : name = other
  · rw [if_pos (decide_eq_true hname), if_pos (congrArg some hname)]
    simp only [reduceCtorEq, if_false] at hcount
    omega
  · have hother : ¬ some name = some other := fun heq => hname (Option.some.inj heq)
    rw [if_neg hother, if_neg (show ¬ decide (name = other) = true by simpa using hname)]
    simp only [reduceCtorEq, if_false] at hcount
    omega

/-- The loop writes down what it handed over. -/
theorem Balanced.markStopping {due : List (String × UInt64)} (h : Balanced s (.marking name due))
    {f : RuntimeRecord → RuntimeRecord} (hf : ∀ record, (f record).restartState = .stopping) :
    Balanced { s with records := s.records.modify name f } (.dispatching due) := by
  obtain ⟨hnot, hnodup⟩ := List.nodup_cons.1 h.nodup
  obtain ⟨executeAtMs, hscheduled⟩ := h.scheduled name List.mem_cons_self
  have hothers : ∀ other, other ≠ name →
      restartStateOf other { s with records := s.records.modify name f } =
        restartStateOf other s := by
    intro other hne
    unfold restartStateOf
    rw [lookup_modify, if_neg (Ne.symm hne)]
  have hnow : restartStateOf name { s with records := s.records.modify name f } =
      some .stopping := by
    obtain ⟨record, hrecord, -⟩ := Option.map_eq_some_iff.1 hscheduled
    unfold restartStateOf
    rw [lookup_modify, if_pos rfl, hrecord, Option.map_some, Option.map_some, hf]
  refine ⟨fun other hother => ?_, fun other => ?_, hnodup, fun other hdue => ?_, nofun⟩
  · exact h.registered other (Std.ExtTreeMap.mem_modify.1 hother)
  · have hcount := h.count other
    unfold inFlight LoopPhase.received LoopPhase.enqueued at hcount ⊢
    dsimp only at hcount ⊢
    by_cases hname : other = name
    · subst hname
      rw [hscheduled, if_pos rfl] at hcount
      rw [hnow, if_pos rfl]
      simp only [reduceCtorEq, Option.some.injEq, if_false] at hcount ⊢
      omega
    · rw [if_neg fun heq => hname (Option.some.inj heq).symm] at hcount
      rw [hothers other hname]
      simp only [reduceCtorEq, if_false]
      omega
  · have hne : other ≠ name := fun heq => hnot (heq ▸ hdue)
    rw [hothers other hne]
    exact h.scheduled other (List.mem_cons_of_mem name hdue)

/-- A step of `schedule_restart` in the loop. -/
theorem balanced_scheduling {names : List String} (h : Balanced s (.scheduling task names)) :
    (LoopPhase.advance (.scheduling task names)).wp (fun _ => True)
      (fun r t => Balanced t (LoopPhase.after r)) s := by
  have hfree : (∃ executeAtMs, task.phase = .marking executeAtMs) →
      restartStateOf task.service.descriptor.name s ≠ some .stopping := by
    intro hphase
    obtain ⟨executeAtMs, hphase⟩ := hphase
    refine h.chosen _ ?_
    rw [LoopPhase.chosen, hphase, if_neg fun hchecking => by cases hchecking]
  have hframed := framed_advance task s
  rw [LoopPhase.advance, wp_bind, wp_attempt]
  refine ⟨fun _ _ => trivial, ?_⟩
  have hmarked : Balanced (task.advance.final s) (.scheduling task names) := h.marked hframed hfree
  -- the loop goes on with the next service, or stops
  have hloop : Balanced (task.advance.final s) (.reconciling task.timestampMs names) :=
    hmarked.free rfl rfl rfl rfl rfl rfl
  have hidle : Balanced (task.advance.final s) .idle := hmarked.free rfl rfl rfl rfl rfl rfl
  cases hresult : task.advance.result s with
  | error error =>
    cases error with
    | restartBudgetExceeded service => exact wp_pure.2 hloop
    | _ => exact wp_fail.2 hidle
  | ok found =>
    cases found with
    | none => exact wp_pure.2 hloop
    | some phase =>
      -- the restart was not `Stopping` when it was chosen, and is not now
      refine wp_pure.2 (hmarked.goOn rfl rfl rfl rfl List.nodup_nil (fun _ hdue => by cases hdue)
        fun name hname => ?_)
      have hchosen : name = task.service.descriptor.name := by
        change (if phase = .checking then none else some task.service.descriptor.name) =
          some name at hname
        split at hname
        · cases hname
        · exact (Option.some.inj hname).symm
      subst hchosen
      obtain ⟨service, timestampMs, current⟩ := task
      cases current with
      | checking =>
        obtain ⟨-, hsame, hstate⟩ := wp_checking service timestampMs s
        rw [hsame]
        exact hstate phase hresult
      | _ =>
        refine hmarked.chosen _ ?_
        rw [LoopPhase.chosen, if_neg fun hchecking => by cases hchecking]

/-- **A step of the loop keeps the balance.** -/
theorem balanced_advance (h : Balanced s loop) :
    loop.advance.wp (fun _ => True) (fun r t => Balanced t (LoopPhase.after r)) s := by
  cases loop with
  | idle => exact wp_pure.2 h
  | applying timestampMs completions =>
    cases completions with
    | nil =>
      rw [LoopPhase.advance, validate, wp_read_bind]
      exact ⟨fun order _ => wp_pure.2 (h.free rfl rfl rfl rfl rfl rfl),
        fun _ _ => h.free rfl rfl rfl rfl rfl rfl⟩
    | cons completion completions =>
      have hrecord := mem_records_of_state h.stopping_received
      rw [LoopPhase.advance, wp_bind]
      refine wp_mono (wp_applyRestartCompletion (h.registered _ hrecord) hrecord) (fun _ => id)
        fun r t ht => ?_
      obtain ⟨rfl, happlied⟩ := ht
      exact wp_pure.2 (balanced_applied h happlied)
  | reconciling timestampMs names =>
    cases names with
    | nil =>
      rw [LoopPhase.advance, wp_read_bind]
      refine ⟨fun due hdue => ?_, nofun⟩
      cases hdue
      exact wp_pure.2 h.collect
    | cons name names =>
      rw [LoopPhase.advance, wp_bind]
      refine ⟨fun _ _ => trivial, ?_⟩
      have hframed := h.framed (framed_final (moves_observeService name) s)
      cases (LoopPhase.observeService name).result s with
      | error error => exact hframed.free rfl rfl rfl rfl rfl rfl
      | ok failed =>
        cases failed with
        | none => exact wp_pure.2 (hframed.free rfl rfl rfl rfl rfl rfl)
        | some service => exact wp_pure.2 (hframed.free rfl rfl rfl rfl rfl rfl)
  | scheduling task names => exact balanced_scheduling h
  | dispatching due =>
    cases due with
    | nil => exact wp_pure.2 (h.free rfl rfl rfl rfl rfl rfl)
    | cons restart due =>
      obtain ⟨name, attempt⟩ := restart
      have hrest : Balanced s (.dispatching due) := by
        refine h.goOn rfl rfl rfl rfl (List.nodup_cons.1 h.nodup).2 (fun other hother => ?_) nofun
        exact h.scheduled other (List.mem_cons_of_mem name hother)
      have hidle : Balanced s .idle :=
        hrest.goOn rfl rfl rfl rfl List.nodup_nil nofun nofun
      rw [LoopPhase.advance, SupervisorInner.service, wp_read_bind]
      refine ⟨fun service hservice => ?_, fun _ _ => hidle⟩
      have hnamed : service.descriptor.name = name := by
        split at hservice
        · cases hservice
        next found hfound =>
          cases hservice
          exact s.services.named name _ hfound
      rw [wp_bind, wp_attempt, schedule, wp_step]
      dsimp only
      split
      · refine ⟨fun t ht => ⟨trivial, ?_⟩, nofun⟩
        cases ht
        exact wp_pure.2 (h.enqueue hnamed)
      · refine ⟨nofun, fun error herror => ?_⟩
        cases herror
        exact wp_pure.2 hrest
  | marking name due =>
    obtain ⟨executeAtMs, hscheduled⟩ := h.scheduled name List.mem_cons_self
    rw [LoopPhase.advance, wp_bind]
    apply wp_changeRecord
    · exact mem_records_of_state hscheduled
    · exact wp_pure.2 (h.markStopping fun _ => rfl)

/-- The loop receives the completions, which are in flight as before. -/
theorem balanced_start (h : Balanced s .idle) (timestampMs : UInt64) :
    (LoopPhase.start timestampMs).wp (fun _ => True)
      (fun r t => Balanced t (LoopPhase.after r)) s := by
  unfold LoopPhase.start drainCompletions
  rw [wp_bind, wp_read_bind]
  refine ⟨fun completions hcompletions => ?_, fun _ hfailed => by cases hfailed⟩
  cases hcompletions
  rw [wp_bind, change, wp_step]
  refine ⟨fun t ht => ⟨trivial, ?_⟩, fun _ hfailed => by cases hfailed⟩
  cases ht
  refine wp_pure.2 (wp_pure.2 ⟨h.registered, fun name => ?_, List.nodup_nil,
    (fun _ hdue => by cases hdue), fun _ hchosen => by cases hchosen⟩)
  have hcount := h.count name
  unfold inFlight LoopPhase.received LoopPhase.enqueued at hcount
  rw [List.countP_nil, Nat.add_zero] at hcount
  unfold inFlight LoopPhase.received LoopPhase.enqueued LoopPhase.after
  dsimp only
  rw [List.countP_nil, Nat.add_zero]
  exact hcount

/-- The restarts in flight go from one place to another. -/
theorem Balanced.of_executor (h : Balanced s loop) (hservices : t.services = s.services)
    (hrecords : t.records = s.records)
    (hcount : ∀ name, inFlight name t.restartExecutor loop = inFlight name s.restartExecutor loop) :
    Balanced t loop := by
  have hstate (name : String) : restartStateOf name t = restartStateOf name s := by
    unfold restartStateOf
    rw [hrecords]
  refine ⟨fun name hname => ?_, fun name => ?_, h.nodup, fun name hdue => ?_, fun name hchosen => ?_⟩
  · rw [hservices]
    exact h.registered name (hrecords ▸ hname)
  · rw [hcount, hstate]
    exact h.count name
  · rw [hstate]
    exact h.scheduled name hdue
  · rw [hstate]
    exact h.chosen name hchosen

theorem Balanced.takeCommand (h : Balanced s loop) (hstep : s.takeCommand = some t) :
    Balanced t loop := by
  obtain ⟨hservices, hrecords⟩ := takeCommand_frame hstep
  refine h.of_executor hservices hrecords fun name => ?_
  unfold SupervisorInner.takeCommand at hstep
  split at hstep
  · cases hstep
  next command commands hcommands =>
    split at hstep
    · cases hstep
      unfold inFlight
      dsimp only
      rw [hcommands, List.countP_append, List.countP_singleton, List.countP_cons]
      dsimp only
      omega
    · cases hstep

theorem Balanced.workerStep {index : Nat} (h : Balanced s loop)
    (hstep : s.workerStep index = some t) : Balanced t loop := by
  obtain ⟨hservices, hrecords⟩ := workerStep_frame hstep
  refine h.of_executor hservices hrecords fun name => ?_
  unfold SupervisorInner.workerStep at hstep
  split at hstep
  · cases hstep
  next worker hworker =>
    obtain ⟨hlt, hworker⟩ := List.getElem?_eq_some_iff.1 hworker
    have hmoved (executor : RestartExecutor W) (phase : WorkerPhase) :
        inFlight name { executor with
          workers := s.restartExecutor.workers.set index { worker with phase } } loop =
        inFlight name { executor with workers := s.restartExecutor.workers } loop := by
      unfold inFlight
      dsimp only
      rw [List.countP_set hlt, hworker]
      dsimp only
      have hle : (if decide (worker.command.service.descriptor.name = name) = true then 1 else 0) ≤
          s.restartExecutor.workers.countP fun worker =>
            worker.command.service.descriptor.name = name := by
        split
        next hname =>
          exact List.one_le_countP_iff.2 ⟨worker, hworker ▸ List.getElem_mem hlt, hname⟩
        · exact Nat.zero_le _
      omega
    split at hstep
    · split at hstep
      · cases hstep
        unfold inFlight
        dsimp only
        have hperm := (List.getElem_cons_eraseIdx_perm hlt).countP_eq fun worker =>
          decide (worker.command.service.descriptor.name = name)
        rw [List.countP_cons, hworker] at hperm
        rw [List.countP_append, List.countP_singleton]
        dsimp only
        omega
      · cases hstep
    · cases hstep
      exact hmoved s.restartExecutor _

/-- A thread that asked for a restart makes a step. -/
theorem Balanced.caller {phase : RestartPhase W} (h : Balanced s loop)
    (hfree : ∀ task executeAtMs, phase = .scheduling task → task.phase = .marking executeAtMs →
      restartStateOf task.service.descriptor.name s ≠ some .stopping) :
    Balanced (phase.advance.final s) loop := by
  cases phase with
  | requested name timestampMs =>
    refine h.framed (framed_final ?_ s)
    exact moves_bind (moves_read _) fun service =>
      moves_bind (moves_requireDependencies sameState_of_same service) fun _ => moves_pure _
  | scheduling task =>
    have hsteps : Moves (Framed (MayMark task) True) (RestartPhase.advance (.scheduling task)) := by
      refine moves_bind (moves_advance task) fun next => ?_
      cases next with
      | none => exact moves_pure _
      | some phase => exact moves_pure _
    have hframed := hsteps.final (fun _ => Framed.rfl' fun _ _ => Or.inl rfl) (fun _ _ _ =>
      Framed.trans fun _ _ _ _ => mayMark_trans) s
    refine h.marked hframed fun hphase => ?_
    obtain ⟨executeAtMs, hphase⟩ := hphase
    exact hfree task executeAtMs rfl hphase
  | finished => exact h

/-! ## Runs -/

/-- Every service is registered with its record, and no restart is in flight. -/
structure Settled (s : SupervisorInner W) : Prop where
  registered : ∀ name, name ∈ s.records → name ∈ s.services.map
  commands : s.restartExecutor.commands = []
  completions : s.restartExecutor.completions = []
  workers : s.restartExecutor.workers = []
  idle : ∀ name, restartStateOf name s ≠ some .stopping

theorem Settled.balanced (h : Settled s) : Balanced s .idle := by
  refine ⟨h.registered, fun name => ?_, List.nodup_nil, nofun, nofun⟩
  unfold inFlight LoopPhase.received LoopPhase.enqueued
  rw [h.commands, h.completions, h.workers, if_neg (h.idle name)]
  rfl

theorem Settled.framed (h : Settled s) (hframed : Framed SameState True s t) : Settled t := by
  have hexecutor := hframed.executor trivial
  refine ⟨fun name hname => ?_, hexecutor ▸ h.commands, hexecutor ▸ h.completions,
    hexecutor ▸ h.workers, fun name => ?_⟩
  · rw [hframed.services]
    exact h.registered name (hframed.mem_records.1 hname)
  · rw [restartStateOf_framed hframed]
    exact h.idle name

theorem Settled.step {event : SupervisorStep W} (h : Settled s) (hevent : event.Prepares)
    (hstep : s.step event = some t) : Settled t := by
  cases event with
  | register service =>
    cases hstep
    rcases register_cases service s with ⟨-, -, hfinal⟩ | ⟨-, hfinal⟩
    · rw [hfinal]
      refine ⟨fun name hname => ?_, h.commands, h.completions, h.workers, fun name => ?_⟩
      · unfold enrolled at hname
        unfold enrolled Services.insert
        dsimp only at hname ⊢
        rw [Std.ExtTreeMap.mem_insert] at hname ⊢
        exact hname.imp id (h.registered name)
      · unfold restartStateOf enrolled
        dsimp only
        rw [lookup_insert]
        split
        · exact nofun
        · exact h.idle name
    · rwa [hfinal]
  | start name =>
    cases hstep
    exact h.framed (framed_final (moves_start sameState_of_same name) s)
  | environment world =>
    cases hstep
    exact ⟨h.registered, h.commands, h.completions, h.workers, h.idle⟩
  | _ => exact absurd hevent id

theorem settled_new (createdAtMs : UInt64) (world : W) :
    Settled (SupervisorInner.new createdAtMs world) := by
  refine ⟨fun name hname => absurd hname ?_, rfl, rfl, rfl, fun name => ?_⟩
  · unfold SupervisorInner.new
    exact Std.ExtTreeMap.not_mem_empty
  · unfold SupervisorInner.new restartStateOf
    dsimp only
    rw [Std.ExtTreeMap.getElem?_empty]
    exact nofun

theorem settled_run {createdAtMs : UInt64} {world : W} {setup : List (SupervisorStep W)}
    (hsetup : ∀ event ∈ setup, event.Prepares)
    (hrun : (SupervisorInner.new createdAtMs world).run setup = some s) : Settled s := by
  refine (throughout_of_step (P := fun _ event => event.Prepares) (settled_new createdAtMs world)
    (fun _ _ _ h hevent hstep => h.step hevent hstep) ?_).final hrun
  intro before event after _ heq _
  exact hsetup event (heq ▸ List.mem_append_right _ List.mem_cons_self)

/-- **One step keeps the balance** unless it overwrites the state `Stopping`. -/
theorem balanced_step {c c' : ConcurrentSupervisor W} {event : ConcurrentStep W}
    (h : Balanced c.inner c.loop) (hfree : overwritesStopping c event = false)
    (hstep : c.step event = some c') : Balanced c'.inner c'.loop := by
  obtain ⟨s, loop, callers⟩ := c
  cases event with
  | reconcile timestampMs =>
    cases loop with
    | idle =>
      cases hstep
      exact (balanced_start h timestampMs).2
    | _ => cases hstep
  | loop =>
    have hnext := (balanced_advance h).2
    cases loop with
    | idle => cases hstep
    | _ =>
      cases hstep
      exact hnext
  | restart name timestampMs =>
    cases hstep
    exact h
  | caller index =>
    obtain ⟨phase, hphase, rfl⟩ := Option.map_eq_some_iff.1 hstep
    refine Balanced.caller h fun task executeAtMs heq hmarking hstopping => ?_
    unfold overwritesStopping at hfree
    subst heq
    dsimp only at hfree hphase
    rw [hphase] at hfree
    dsimp only at hfree
    rw [hmarking] at hfree
    exact of_decide_eq_false hfree hstopping
  | takeCommand =>
    obtain ⟨t, ht, rfl⟩ := Option.map_eq_some_iff.1 hstep
    exact h.takeCommand ht
  | worker index =>
    obtain ⟨t, ht, rfl⟩ := Option.map_eq_some_iff.1 hstep
    exact h.workerStep ht
  | environment world =>
    cases hstep
    exact h.of_executor rfl rfl fun _ => rfl

end

/-- **At most one restart of a service is in flight, and none is forgotten,** in every run in which no
thread overwrites the state `Stopping`. -/
theorem one_in_flight (createdAtMs : UInt64) (world : W) (setup : List (SupervisorStep W))
    (hsetup : ∀ event ∈ setup, event.Prepares) (s : SupervisorInner W)
    (hrun : (SupervisorInner.new createdAtMs world).run setup = some s)
    (steps : List (ConcurrentStep W))
    (hfree : EachStep ConcurrentSupervisor.step (fun c event => overwritesStopping c event = false)
      (.start s) steps) :
    Throughout ConcurrentSupervisor.step OneInFlight (.start s) steps := by
  have hbalanced : Throughout ConcurrentSupervisor.step
      (fun c : ConcurrentSupervisor W => Balanced c.inner c.loop) (.start s) steps :=
    throughout_of_step (settled_run hsetup hrun).balanced
      (fun _ _ _ h hstep hnext => balanced_step h hstep hnext) hfree
  exact hbalanced.imp fun c hc => hc.oneInFlight

/-! ### Runs -/

/-- A service that is restarted without a delay. -/
def promptService : ManagedService ServiceHealth :=
  passiveService (.new "worker" { RestartPolicy.default with backoff := 0, jitter := 0 })

def promptSupervisor : SupervisorInner ServiceHealth :=
  (register promptService).final (.new 1 .unknown)

/-- A restart is asked for and handed to the executor. -/
def restartOnce : List (ConcurrentStep ServiceHealth) :=
  [.restart "worker" 100, .caller 0, .caller 0, .caller 0, .caller 0, .caller 0, .reconcile 100,
    .loop, .loop, .loop, .loop, .loop, .loop, .takeCommand]

theorem one_in_flight_sample :
    Throughout ConcurrentSupervisor.step OneInFlight (.start promptSupervisor) restartOnce :=
  one_in_flight 1 .unknown [.register promptService] (by simp [SupervisorStep.Prepares])
    promptSupervisor rfl restartOnce (by
      have hsteps : EachStep ConcurrentSupervisor.step
          (fun c event => (!overwritesStopping c event) = true) (.start promptSupervisor)
          restartOnce :=
        eachStep_of_check (by decide)
      intro before event after c heq hrun
      simpa using hsteps before event after c heq hrun)

/-- Two threads ask for a restart, and the second one writes down that it is scheduled after the first
restart has been handed to the executor. -/
def racingSteps : List (ConcurrentStep ServiceHealth) :=
  [.restart "worker" 100, .restart "worker" 100, .caller 0, .caller 1, .caller 0, .caller 1,
    .caller 0, .caller 1, .caller 0, .caller 1, .caller 0, .reconcile 100,
    .loop, .loop, .loop, .loop, .loop, .loop, .caller 1, .reconcile 100,
    .loop, .loop, .loop, .loop]

/-- Where the race ends. -/
def raced : ConcurrentSupervisor ServiceHealth :=
  (runFrom ConcurrentSupervisor.step (.start promptSupervisor) racingSteps).getD
    (.start promptSupervisor)

/-- Two commands for the service are in the queue. -/
theorem two_in_flight :
    (SupervisorInner.new 1 .unknown).run [.register promptService] = some promptSupervisor ∧
    raced.inner.restartExecutor.commands.map (fun command => command.service.descriptor.name) =
      ["worker", "worker"] ∧
    ¬ Throughout ConcurrentSupervisor.step OneInFlight (.start promptSupervisor) racingSteps := by
  refine ⟨rfl, by decide, fun h => ?_⟩
  have hrun : runFrom ConcurrentSupervisor.step (.start promptSupervisor) racingSteps =
      some raced := by
    have hsome : (runFrom ConcurrentSupervisor.step (.start promptSupervisor)
        racingSteps).isSome = true := by decide
    obtain ⟨c, hc⟩ := Option.isSome_iff_exists.1 hsome
    rw [raced, hc, Option.getD_some]
  have hone := (h.final hrun).atMostOne "worker"
  exact absurd hone (by decide)

end AppCore.Supervisor
