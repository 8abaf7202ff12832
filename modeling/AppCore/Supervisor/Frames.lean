import AppCore.Base.Cursor
import AppCore.Base.Moves
import AppCore.Supervisor.Lifecycle

/-!
# What the calls of a supervisor change

A call leaves the services as they are, and changes the records one at a time. How it may change them
is a parameter (`keep`): a frame is the relation between the states before and after a step that this
gives (`Framed`), and for each call there is a lemma that says for which relations its steps are in the
frame.

* `moves_start`, `moves_stop`, `moves_reconcile` — none of them takes a restart time away, lifts a
  quarantine or schedules a restart, but for what `schedule_restart` does.
-/

namespace AppCore.Supervisor.SupervisorInner

open Prog

variable {W : Type}

/-- The services are the same, the records are changed as `keep` says, and so is the executor, unless
it is `quiet`. -/
structure Framed (keep : String → RuntimeRecord → RuntimeRecord → Prop) (quiet : Prop)
    (s t : SupervisorInner W) : Prop where
  services : t.services = s.services
  executor : quiet → t.restartExecutor = s.restartExecutor
  records : ∀ name : String, Option.Rel (keep name) s.records[name]? t.records[name]?

/-- Nothing about the restarts of a record is changed. -/
structure SameRestarts (old new : RuntimeRecord) : Prop where
  restartState : new.restartState = old.restartState
  restartTimesMs : new.restartTimesMs = old.restartTimesMs
  quarantined : new.quarantined = old.quarantined

/-- The restart times are the same, a quarantine stays, and a restart that is scheduled was. -/
structure Unscheduled (old new : RuntimeRecord) : Prop where
  restartTimesMs : new.restartTimesMs = old.restartTimesMs
  quarantined : old.quarantined = true → new.quarantined = true
  restartState : ∀ executeAtMs, new.restartState = .scheduled executeAtMs →
    old.restartState = .scheduled executeAtMs

theorem SameRestarts.rfl' (record : RuntimeRecord) : SameRestarts record record := ⟨rfl, rfl, rfl⟩

theorem SameRestarts.unscheduled {old new : RuntimeRecord} (h : SameRestarts old new) :
    Unscheduled old new :=
  ⟨h.restartTimesMs, fun hold => h.quarantined.trans hold, fun _ hnew => h.restartState ▸ hnew⟩

theorem Unscheduled.trans {a b c : RuntimeRecord} (h : Unscheduled a b) (h' : Unscheduled b c) :
    Unscheduled a c :=
  ⟨h'.restartTimesMs.trans h.restartTimesMs, fun ha => h'.quarantined (h.quarantined ha),
    fun executeAtMs hc => h.restartState executeAtMs (h'.restartState executeAtMs hc)⟩

theorem rel_refl {keep : RuntimeRecord → RuntimeRecord → Prop} (hrefl : ∀ record, keep record record)
    (record : Option RuntimeRecord) : Option.Rel keep record record := by
  cases record with
  | none => exact Option.Rel.none
  | some record => exact Option.Rel.some (hrefl record)

/-! ## What single steps do -/

section

variable {s : SupervisorInner W} {name : String}

theorem wp_ask {α : Type} {f : W → α × W}
    {Q : Except SupervisorError α → SupervisorInner W → Prop}
    (h : Q (.ok (f s.world).1) { s with world := (f s.world).2 }) :
    (ask f).wp (fun _ => True) Q s := by
  rw [ask, wp_read_bind]
  refine ⟨fun a ha => ?_, nofun⟩
  cases ha
  rw [wp_bind, change, wp_step]
  refine ⟨fun t ht => ⟨trivial, ?_⟩, nofun⟩
  cases ht
  exact wp_pure.2 h

theorem wp_changeRecord (hmem : name ∈ s.records) {f : RuntimeRecord → RuntimeRecord}
    {Q : Except SupervisorError Unit → SupervisorInner W → Prop}
    (h : Q (.ok ()) { s with records := s.records.modify name f }) :
    (changeRecord name f).wp (fun _ => True) Q s := by
  rw [changeRecord, wp_step]
  refine ⟨fun t ht => ⟨trivial, ?_⟩, fun e he => ?_⟩
  · rw [if_pos hmem] at ht
    cases ht
    exact h
  · rw [if_pos hmem] at he
    cases he

theorem wp_updateRecord (hmem : name ∈ s.records) {health : ServiceHealth}
    {runtimeState : ServiceRuntimeState}
    {Q : Except SupervisorError (Option ServiceHealth) → SupervisorInner W → Prop}
    (h : ∀ previous, Q (.ok previous) { s with
      records := s.records.modify name fun record =>
        { record with health := some health, runtimeState } }) :
    (updateRecord name health runtimeState).wp (fun _ => True) Q s := by
  rw [updateRecord, record, wp_read_bind]
  have hfound := Std.ExtTreeMap.mem_iff_isSome_getElem?.1 hmem
  obtain ⟨found, hfound⟩ := Option.isSome_iff_exists.1 hfound
  rw [hfound]
  refine ⟨fun previous hprevious => ?_, nofun⟩
  rw [wp_bind]
  exact wp_changeRecord hmem (wp_pure.2 (h previous.health))

theorem wp_health {service : ManagedService W}
    {Q : Except SupervisorError ServiceHealth → SupervisorInner W → Prop}
    (h : Q (.ok (service.health s.world).1) { s with
      world := (service.health s.world).2
      reports := s.reports ++ [(service.descriptor.name, (service.health s.world).1)] }) :
    (health service).wp (fun _ => True) Q s := by
  rw [health, wp_read_bind]
  refine ⟨fun a ha => ?_, nofun⟩
  cases ha
  rw [wp_bind, change, wp_step]
  refine ⟨fun t ht => ⟨trivial, ?_⟩, nofun⟩
  cases ht
  exact wp_pure.2 h

end

section

variable {keep : String → RuntimeRecord → RuntimeRecord → Prop} {quiet : Prop}
  {s t u : SupervisorInner W}

theorem Framed.rfl' (hrefl : ∀ name record, keep name record record) : Framed keep quiet s s :=
  ⟨rfl, fun _ => rfl, fun name => rel_refl (hrefl name) _⟩

theorem Framed.trans (htrans : ∀ name a b c, keep name a b → keep name b c → keep name a c)
    (h : Framed keep quiet s t) (h' : Framed keep quiet t u) : Framed keep quiet s u := by
  refine ⟨h'.services.trans h.services, fun hquiet => (h'.executor hquiet).trans (h.executor hquiet),
    fun name => ?_⟩
  have hfirst := h.records name
  have hsecond := h'.records name
  generalize s.records[name]? = first, t.records[name]? = second, u.records[name]? = third
    at hfirst hsecond ⊢
  cases hfirst with
  | none => exact hsecond
  | some hkeep =>
    cases hsecond with
    | some hkeep' => exact Option.Rel.some (htrans name _ _ _ hkeep hkeep')

theorem Framed.imp {keep' : String → RuntimeRecord → RuntimeRecord → Prop}
    (h : Framed keep quiet s t) (himp : ∀ name old new, keep name old new → keep' name old new) :
    Framed keep' quiet s t := by
  refine ⟨h.services, h.executor, fun name => ?_⟩
  have hrel := h.records name
  generalize s.records[name]? = old, t.records[name]? = new at hrel ⊢
  cases hrel with
  | none => exact Option.Rel.none
  | some hkeep => exact Option.Rel.some (himp name _ _ hkeep)

theorem Framed.mem_records (h : Framed keep quiet s t) {name : String} :
    name ∈ t.records ↔ name ∈ s.records := by
  rw [Std.ExtTreeMap.mem_iff_isSome_getElem?, Std.ExtTreeMap.mem_iff_isSome_getElem?]
  have hrel := h.records name
  generalize s.records[name]? = old, t.records[name]? = new at hrel ⊢
  cases hrel with
  | none => exact Iff.rfl
  | some hkeep => exact Iff.rfl

theorem framed_modify (hrefl : ∀ name record, keep name record record) (name : String)
    {f : RuntimeRecord → RuntimeRecord} (hf : ∀ record, keep name record (f record)) :
    Framed keep quiet s { s with records := s.records.modify name f } := by
  refine ⟨rfl, fun _ => rfl, fun other => ?_⟩
  rw [lookup_modify]
  by_cases hname : name = other
  · rw [if_pos hname, ← hname]
    cases s.records[name]? with
    | none => exact Option.Rel.none
    | some record => exact Option.Rel.some (hf record)
  · rw [if_neg hname]
    exact rel_refl (hrefl other) _

/-! ## Steps that do not touch the restarts -/

variable (hsame : ∀ name old new, SameRestarts old new → keep name old new)

include hsame

theorem moves_change {f : SupervisorInner W → SupervisorInner W}
    (hservices : ∀ s, (f s).services = s.services) (hrecords : ∀ s, (f s).records = s.records)
    (hexecutor : quiet → ∀ s, (f s).restartExecutor = s.restartExecutor) :
    Moves (Framed keep quiet) (change f) := by
  refine moves_step fun s t h => ?_
  cases h
  refine ⟨hservices s, fun hquiet => hexecutor hquiet s, fun name => ?_⟩
  rw [hrecords]
  exact rel_refl (fun record => hsame name record record (.rfl' record)) _

theorem moves_changeRecord (name : String) {f : RuntimeRecord → RuntimeRecord}
    (hf : ∀ record, keep name record (f record)) :
    Moves (Framed keep quiet) (changeRecord name f : Call W Unit) := by
  refine moves_step fun s t h => ?_
  split at h
  · cases h
    exact framed_modify (fun name record => hsame name record record (.rfl' record)) name hf
  · cases h

theorem moves_ask {α : Type} (f : W → α × W) : Moves (Framed keep quiet) (ask f) :=
  moves_bind (moves_read _) fun _ =>
    moves_bind (moves_change hsame (fun _ => rfl) (fun _ => rfl) fun _ _ => rfl) fun _ =>
      moves_pure _

theorem moves_health (service : ManagedService W) :
    Moves (Framed keep quiet) (health service) :=
  moves_bind (moves_read _) fun _ =>
    moves_bind (moves_change hsame (fun _ => rfl) (fun _ => rfl) fun _ _ => rfl) fun _ =>
      moves_pure _

theorem moves_updateRecord (name : String) (health : ServiceHealth)
    (runtimeState : ServiceRuntimeState) :
    Moves (Framed keep quiet) (updateRecord name health runtimeState : Call W _) :=
  moves_bind (moves_read _) fun _ =>
    moves_bind (moves_changeRecord hsame name fun record =>
      hsame name record _ ⟨rfl, rfl, rfl⟩) fun _ => moves_pure _

theorem moves_firstUnavailable (dependencies : List ServiceDependency) :
    Moves (Framed keep quiet) (firstUnavailable dependencies : Call W _) := by
  induction dependencies with
  | nil => exact moves_pure none
  | cons dependency dependencies ih =>
    refine moves_bind (moves_attempt (moves_read _)) fun found => ?_
    cases found with
    | ok service =>
      refine moves_bind (moves_health hsame service) fun health => ?_
      split
      · exact ih
      · exact moves_pure _
    | error error =>
      change Moves _ (if dependency.requirement = .optional then _ else _)
      split
      · exact ih
      · exact moves_fail error

theorem moves_requireDependencies (service : ManagedService W) :
    Moves (Framed keep quiet) (requireDependencies service) := by
  refine moves_bind (moves_firstUnavailable hsame _) fun found => ?_
  cases found with
  | some dependency => exact moves_fail _
  | none => exact moves_pure ()

theorem moves_jitter (maximum : Duration) :
    Moves (Framed keep quiet) (jitter maximum : Call W Duration) := by
  unfold jitter
  dsimp only
  split
  · exact moves_pure 0
  · exact moves_bind (moves_read _) fun _ =>
      moves_bind (moves_change hsame (fun _ => rfl) (fun _ => rfl) fun _ _ => rfl) fun _ =>
        moves_pure _

theorem moves_consumeRestartBudget {service : ManagedService W}
    (hown : ∀ old new, new.restartState = old.restartState → keep service.descriptor.name old new)
    (timestampMs : UInt64) :
    Moves (Framed keep quiet) (consumeRestartBudget service timestampMs) := by
  have hchange (f : RuntimeRecord → RuntimeRecord)
      (hf : ∀ record, (f record).restartState = record.restartState) :
      Moves (Framed keep quiet) (changeRecord service.descriptor.name f : Call W Unit) :=
    moves_changeRecord hsame _ fun record => hown record (f record) (hf record)
  refine moves_bind (hchange _ fun _ => rfl) fun _ => moves_bind (moves_read _) fun current => ?_
  split
  · exact moves_bind (hchange _ fun _ => rfl) fun _ => moves_fail _
  · exact moves_bind (hchange _ fun _ => rfl) fun _ => moves_pure _

theorem moves_scheduleRestart {service : ManagedService W}
    (hown : ∀ old new, keep service.descriptor.name old new) (timestampMs : UInt64) :
    Moves (Framed keep quiet) (scheduleRestart service timestampMs) := by
  unfold scheduleRestart
  dsimp only
  split
  · exact moves_pure ()
  · refine moves_bind (moves_bind (moves_read _) fun _ => moves_pure _) fun active => ?_
    split
    · exact moves_pure ()
    · refine moves_bind ?_ fun _ => moves_bind (moves_jitter hsame _) fun _ => ?_
      · exact moves_consumeRestartBudget hsame (fun old new _ => hown old new) timestampMs
      · exact moves_changeRecord hsame _ fun record => hown record _

theorem moves_start (name : String) : Moves (Framed keep quiet) (start name : Call W Unit) := by
  refine moves_bind (moves_read _) fun service => ?_
  split
  · exact moves_pure ()
  · refine moves_bind (moves_requireDependencies hsame service) fun _ => ?_
    refine moves_bind (moves_read _) fun _ => moves_bind (moves_ask hsame _) fun started => ?_
    cases started with
    | ok u =>
      exact moves_bind (moves_health hsame service) fun _ => moves_bind (moves_ask hsame _) fun _ =>
        moves_bind (moves_updateRecord hsame _ _ _) fun _ => moves_pure ()
    | error error =>
      exact moves_bind (moves_ask hsame _) fun _ =>
        moves_bind (moves_updateRecord hsame _ _ _) fun _ => moves_fail error

end

/-! ## Steps that schedule no restart -/

section

variable {keep : String → RuntimeRecord → RuntimeRecord → Prop}
  (hkeep : ∀ name old new, Unscheduled old new → keep name old new)

include hkeep

theorem moves_changed (name : String) {f : RuntimeRecord → RuntimeRecord}
    (hf : ∀ record, Unscheduled record (f record)) :
    Moves (Framed keep False) (changeRecord name f : Call W Unit) :=
  moves_changeRecord (fun name old new h => hkeep name old new h.unscheduled) name fun record =>
    hkeep name record _ (hf record)

/-- The executor is told about a restart. -/
theorem moves_dispatchRestart (name : String) (attempt : UInt64) :
    Moves (Framed keep False) (dispatchRestart name attempt : Call W Unit) := by
  have hschedule (command : RestartCommand W) : Moves (Framed keep False) (schedule command) := by
    refine moves_step fun s t h => ?_
    dsimp only at h
    split at h
    · cases h
      exact ⟨rfl, nofun, fun name => rel_refl (fun record =>
        hkeep name record record (SameRestarts.rfl' record).unscheduled) _⟩
    · cases h
  refine moves_bind (moves_read _) fun service => moves_bind (moves_attempt (hschedule _)) fun r => ?_
  cases r with
  | error error =>
    cases error with
    | restartQueueFull => exact moves_pure ()
    | _ => exact moves_fail _
  | ok u => exact moves_changed hkeep name fun _ => ⟨rfl, id, nofun⟩

theorem moves_dispatchDueRestarts (timestampMs : UInt64) :
    Moves (Framed keep False) (dispatchDueRestarts timestampMs : Call W Unit) :=
  moves_bind (moves_read _) fun due =>
    moves_each due fun restart _ => moves_dispatchRestart hkeep restart.1 restart.2

theorem moves_quarantineOrphan (name : String) :
    Moves (Framed keep False) (quarantineOrphan name : Call W Unit) :=
  moves_changed hkeep name fun _ => ⟨rfl, fun _ => rfl, nofun⟩

theorem moves_applyRestartCompletion (completion : RestartCompletion) :
    Moves (Framed keep False) (applyRestartCompletion completion : Call W Unit) := by
  have hsame := fun name old new (h : SameRestarts old new) => hkeep name old new h.unscheduled
  refine moves_bind (moves_read _) fun service => ?_
  cases completion.outcome with
  | restarted =>
    exact moves_bind (moves_health hsame service) fun _ => moves_bind (moves_ask hsame _) fun _ =>
      moves_changed hkeep _ fun _ => ⟨rfl, id, nofun⟩
  | orphaned => exact moves_quarantineOrphan hkeep _
  | failed =>
    exact moves_bind (moves_ask hsame _) fun _ =>
      moves_changed hkeep _ fun _ => ⟨rfl, id, nofun⟩
  | cancelled =>
    exact moves_bind (moves_ask hsame _) fun _ =>
      moves_changed hkeep _ fun _ => ⟨rfl, id, nofun⟩

theorem moves_applyRestartCompletions :
    Moves (Framed keep False) (applyRestartCompletions : Call W Unit) := by
  have hsame := fun name old new (h : SameRestarts old new) => hkeep name old new h.unscheduled
  have hdrain : Moves (Framed keep False) (drainCompletions : Call W _) :=
    moves_bind (moves_read _) fun _ =>
      moves_bind (moves_change hsame (fun _ => rfl) (fun _ => rfl) nofun) fun _ => moves_pure _
  exact moves_bind hdrain fun completions => moves_each completions fun completion _ =>
    moves_applyRestartCompletion hkeep completion

theorem moves_stop (name : String) : Moves (Framed keep False) (stop name : Call W Unit) := by
  have hsame := fun name old new (h : SameRestarts old new) => hkeep name old new h.unscheduled
  refine moves_bind (moves_read _) fun service => ?_
  split
  · exact moves_pure ()
  · refine moves_bind (moves_ask hsame _) fun stopped => ?_
    cases stopped with
    | ok u => exact moves_bind (moves_updateRecord hsame _ _ _) fun _ => moves_pure ()
    | error error =>
      refine moves_bind ?_ fun _ => moves_fail error
      refine moves_bind (moves_ask hsame _) fun runtimeState => ?_
      split
      · exact moves_quarantineOrphan hkeep _
      · exact moves_bind (moves_ask hsame _) fun _ =>
          moves_bind (moves_updateRecord hsame _ _ _) fun _ => moves_pure ()

/-- A service is reconciled but for the restart that this may schedule. -/
theorem moves_reconcileService {timestampMs : UInt64} {name : String}
    (hschedule : ∀ (s : SupervisorInner W) (service : ManagedService W),
      s.services.map[name]? = some service →
      Moves (Framed keep False) (scheduleRestart service timestampMs)) :
    Moves (Framed keep False) (reconcileService timestampMs name : Call W Unit) := by
  have hsame := fun name old new (h : SameRestarts old new) => hkeep name old new h.unscheduled
  refine moves_read_bind fun s service hservice => ?_
  have hfound : s.services.map[name]? = some service := by
    split at hservice
    · cases hservice
    next other hother =>
      cases hservice
      exact hother
  split
  · exact moves_pure ()
  · refine moves_bind (moves_firstUnavailable hsame _) fun found => ?_
    cases found with
    | some dependency =>
      exact moves_bind (moves_ask hsame _) fun _ =>
        moves_bind (moves_updateRecord hsame _ _ _) fun _ => moves_pure ()
    | none =>
      refine moves_bind (moves_health hsame service) fun health =>
        moves_bind (moves_ask hsame _) fun _ => moves_bind (moves_updateRecord hsame _ _ _) fun _ => ?_
      split
      · refine moves_bind (moves_attempt (hschedule s service hfound)) fun r => ?_
        cases r with
        | error error =>
          cases error with
          | restartBudgetExceeded service => exact moves_pure ()
          | _ => exact moves_fail _
        | ok u => exact moves_pure ()
      · exact moves_pure ()

theorem moves_reconcile {timestampMs : UInt64}
    (hschedule : ∀ (s : SupervisorInner W) (name : String) (service : ManagedService W),
      s.services.map[name]? = some service →
      Moves (Framed keep False) (scheduleRestart service timestampMs)) :
    Moves (Framed keep False) (reconcile timestampMs : Call W Unit) :=
  moves_bind (moves_applyRestartCompletions hkeep) fun _ => moves_bind (moves_read _) fun order =>
    moves_bind (moves_each order fun name _ =>
      moves_reconcileService hkeep fun s service => hschedule s name service) fun _ =>
        moves_dispatchDueRestarts hkeep timestampMs

theorem moves_restart {name : String} {timestampMs : UInt64}
    (hschedule : ∀ (s : SupervisorInner W) (service : ManagedService W),
      s.services.map[name]? = some service →
      Moves (Framed keep False) (scheduleRestart service timestampMs)) :
    Moves (Framed keep False) (restart name timestampMs : Call W Unit) := by
  have hsame := fun name old new (h : SameRestarts old new) => hkeep name old new h.unscheduled
  refine moves_read_bind fun s service hservice => ?_
  split at hservice
  · cases hservice
  next other hother =>
    cases hservice
    exact moves_bind (moves_requireDependencies hsame service) fun _ => hschedule s service hother

end

/-! ## Workers and registrations -/

section

variable {s t : SupervisorInner W}

theorem takeCommand_frame (h : s.takeCommand = some t) :
    t.services = s.services ∧ t.records = s.records := by
  unfold takeCommand at h
  split at h
  · cases h
  · split at h
    · cases h
      exact ⟨rfl, rfl⟩
    · cases h

theorem workerStep_frame {index : Nat} (h : s.workerStep index = some t) :
    t.services = s.services ∧ t.records = s.records := by
  unfold workerStep at h
  split at h
  · cases h
  · split at h
    · split at h
      · cases h
        exact ⟨rfl, rfl⟩
      · cases h
    · cases h
      exact ⟨rfl, rfl⟩

theorem framed_of_eq {keep : String → RuntimeRecord → RuntimeRecord → Prop}
    (hrefl : ∀ name record, keep name record record) (hservices : t.services = s.services)
    (hrecords : t.records = s.records) : Framed keep False s t :=
  ⟨hservices, nofun, fun name => hrecords ▸ rel_refl (hrefl name) _⟩

/-- The state with a service that was not there, or in the place of one that was disabled. -/
def enrolled (service : ManagedService W) (s : SupervisorInner W) : SupervisorInner W :=
  { s with
    services := s.services.insert service
    records := s.records.insert service.descriptor.name .default }

theorem register_cases (service : ManagedService W) (s : SupervisorInner W) :
    (((register service).result s).isOk = true ∧ service.descriptor.validate = .ok () ∧
      (register service).final s = s.enrolled service) ∨
      (((register service).result s).isOk = false ∧ (register service).final s = s) := by
  rcases step_cases (m := register service) rfl s with ⟨t, ht, hresult, hfinal⟩ | ⟨e, -, hresult, hfinal⟩
  · obtain ⟨_, hvalid, ht⟩ := bind_eq_ok.1 ht
    dsimp only at ht
    split at ht
    · cases ht
    · cases ht
      exact Or.inl ⟨hresult ▸ rfl, hvalid, hfinal⟩
  · exact Or.inr ⟨hresult ▸ rfl, hfinal⟩

theorem registerOrReplaceInactive_cases (service : ManagedService W) (s : SupervisorInner W) :
    (((registerOrReplaceInactive service).result s).isOk = true ∧
      service.descriptor.validate = .ok () ∧
      (registerOrReplaceInactive service).final s = s.enrolled service) ∨
      (((registerOrReplaceInactive service).result s).isOk = false ∧
        (registerOrReplaceInactive service).final s = s) := by
  rcases step_cases (m := registerOrReplaceInactive service) rfl s with ⟨t, ht, hresult, hfinal⟩ | ⟨e, -, hresult, hfinal⟩
  · obtain ⟨_, hvalid, ht⟩ := bind_eq_ok.1 ht
    dsimp only at ht
    split at ht
    · cases ht
    · cases ht
      exact Or.inl ⟨hresult ▸ rfl, hvalid, hfinal⟩
  · exact Or.inr ⟨hresult ▸ rfl, hfinal⟩

end

end AppCore.Supervisor.SupervisorInner
