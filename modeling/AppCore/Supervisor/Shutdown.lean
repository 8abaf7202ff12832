import AppCore.Base.Runs
import AppCore.Supervisor.Frames
import AppCore.Supervisor.Order
import AppCore.Supervisor.Stopped

/-!
# Shutdown

`start_all` and `shutdown`, with what the services see of a shutdown: which of them is asked to stop,
and in which order.

* `shutdown_reaches_iff` — every service that is enabled is stopped once, before the ones it depends
  on, exactly when the graph of the services is valid or none of them is enabled.

The services can be registered and started one by one, and nobody looks at the graph as a whole before
the shutdown does.
-/

namespace AppCore.Supervisor

namespace SupervisorInner

variable {W : Type}

def startAll : Call W Unit := do
  let order ← validate
  Prog.each (fun name => do
    let service ← service name
    if service.descriptor.activation.isEnabled then start name else pure ()) order

/-- `shutdown` of the executor. What is queued is dropped; the workers that are not idle come to an end
by themselves. -/
def shutdownExecutor : Call W Unit :=
  change fun s => { s with restartExecutor :=
    { s.restartExecutor with commands := [], completions := [] } }

/-- What `shutdown` does for the services that are left, with the first error so far. -/
def shutdownServices : List String → Option SupervisorError → Call W (Option SupervisorError)
  | [], firstError => pure firstError
  | name :: names, firstError => do
      let service ← service name
      if ¬ service.descriptor.activation.isEnabled then shutdownServices names firstError
      else
        match ← ask (service.stop service.descriptor.restartPolicy.shutdownTimeout) with
        | .ok () => do
            recordStopped name
            shutdownServices names firstError
        | .error error => do
            recordStopFailure service
            shutdownServices names (firstError.or (some error))

def shutdown : Call W Unit := do
  shutdownExecutor
  let order ← validate
  match ← shutdownServices order.reverse none with
  | none => pure ()
  | some error => Prog.fail error

end SupervisorInner

/-! ## What the services see -/

/-- A service that writes down when it is asked to stop. -/
def ManagedService.traced {W : Type} (service : ManagedService W) :
    ManagedService (W × List String) where
  descriptor := service.descriptor
  start := fun (world, stops) =>
    let (result, world) := service.start world
    (result, (world, stops))
  stop := fun timeout (world, stops) =>
    let (result, world) := service.stop timeout world
    (result, (world, stops ++ [service.descriptor.name]))
  health := fun (world, stops) =>
    let (health, world) := service.health world
    (health, (world, stops))
  runtimeState := fun (world, stops) =>
    let (runtimeState, world) := service.runtimeState world
    (runtimeState, (world, stops))

/-- The services that write down when they are asked to stop. -/
def Services.traced {W : Type} (services : Services W) : Services (W × List String) where
  map := services.map.map fun _ service => service.traced
  named := by
    intro name service h
    rw [Std.ExtTreeMap.getElem?_map] at h
    obtain ⟨original, horiginal, rfl⟩ := Option.map_eq_some_iff.1 h
    exact services.named name original horiginal

/-- A command whose service writes down when it is asked to stop. -/
def RestartCommand.traced {W : Type} (command : RestartCommand W) :
    RestartCommand (W × List String) :=
  { service := command.service.traced, attempt := command.attempt }

namespace SupervisorInner

variable {W : Type}

/-- A supervisor whose services write down when they are asked to stop. -/
def traced (s : SupervisorInner W) : SupervisorInner (W × List String) :=
  { services := s.services.traced
    records := s.records
    jitterState := s.jitterState
    restartExecutor :=
      { commands := s.restartExecutor.commands.map RestartCommand.traced
        completions := s.restartExecutor.completions
        workers := s.restartExecutor.workers.map fun worker =>
          { command := worker.command.traced, phase := worker.phase }
        queueCapacity := s.restartExecutor.queueCapacity
        workerCount := s.restartExecutor.workerCount
        received := s.restartExecutor.received }
    world := (s.world, [])
    reports := s.reports }

/-- The services that `shutdown` asks to stop, in this order. -/
def stopCalls (s : SupervisorInner W) : List String := (shutdown.final s.traced).world.2

/-- Whether a service is registered and enabled. -/
def isEnabled (s : SupervisorInner W) (name : String) : Bool :=
  s.services.map[name]?.any fun service => service.descriptor.activation.isEnabled

/-- `shutdown` stops every enabled service once, and each before the ones it depends on. -/
structure ShutdownReaches (s : SupervisorInner W) : Prop where
  once : ∀ name, s.isEnabled name = true → s.stopCalls.count name = 1
  before : ∀ name dependency, Relation.TransGen (DependsOn s.services) name dependency →
    s.isEnabled name = true → s.isEnabled dependency = true →
    [name, dependency].Sublist s.stopCalls

end SupervisorInner

/-- What happens to a supervisor before it is shut down. -/
inductive LifecycleStep (W : Type) where
  | startAll
  | other (step : SupervisorStep W)

def SupervisorInner.lifecycle {W : Type} (s : SupervisorInner W) :
    LifecycleStep W → Option (SupervisorInner W)
  | .startAll => some (startAll.final s)
  | .other step => s.step step

/-! ## Services that write down what they see -/

section Traced

variable {W : Type} {services : Services W}

theorem getElem?_traced (name : String) :
    services.traced.map[name]? = services.map[name]?.map ManagedService.traced :=
  Std.ExtTreeMap.getElem?_map

theorem mem_traced {name : String} : name ∈ services.traced.map ↔ name ∈ services.map :=
  Std.ExtTreeMap.mem_map

theorem validateDependencies_traced :
    validateDependencies services.traced = validateDependencies services := by
  unfold validateDependencies
  rw [show services.traced.map = services.map.map fun _ service => service.traced from rfl,
    Std.ExtTreeMap.toList_map]
  generalize services.map.toList = entries
  induction entries with
  | nil => rfl
  | cons entry entries ih =>
    change (_ >>= fun _ => List.forM _ _) = (_ >>= fun _ => List.forM _ _)
    rw [ih]
    have hmem (name : String) : (name ∈ services.map.map fun _ service => service.traced) ↔
        name ∈ services.map := Std.ExtTreeMap.mem_map
    simp only [hmem]
    rfl

theorem visit_traced (depth : Nat) (name : String) (path order : List String) :
    visit services.traced depth name path order = visit services depth name path order := by
  induction depth generalizing name path order with
  | zero =>
    unfold visit
    rw [getElem?_traced]
    cases services.map[name]? <;> rfl
  | succ depth ih =>
    unfold visit
    rw [getElem?_traced]
    cases services.map[name]? with
    | none => rfl
    | some service =>
      simp only [Option.map_some, ih, mem_traced]
      rfl

theorem validOrder_traced : validOrder services.traced = validOrder services := by
  unfold validOrder topologicalOrder
  rw [validateDependencies_traced,
    show services.traced.map = services.map.map fun _ service => service.traced from rfl,
    Std.ExtTreeMap.keys_map, Std.ExtTreeMap.size_map]
  simp only [visit_traced]

end Traced

/-! ## What a shutdown does -/

namespace SupervisorInner

open Prog

variable {W : Type} {services : Services W} {name : String}

/-- A supervisor whose services write down their stops, with a record for each of them. -/
structure Recording (services : Services W) (s : SupervisorInner (W × List String)) : Prop where
  services_eq : s.services = services.traced
  recorded : ∀ name ∈ services.map, name ∈ s.records

/-- Whether one of the services is enabled. -/
def enabledIn (services : Services W) (name : String) : Bool :=
  services.map[name]?.any fun service => service.descriptor.activation.isEnabled

theorem Recording.ofRecords {s t : SupervisorInner (W × List String)} (h : Recording services s)
    (hservices : t.services = s.services) (hrecords : ∀ name, name ∈ s.records → name ∈ t.records) :
    Recording services t :=
  ⟨hservices.trans h.services_eq, fun name hname => hrecords name (h.recorded name hname)⟩

/-- The record of a service that could not be stopped is changed, and nothing is stopped. -/
theorem wp_recordStopFailure {s : SupervisorInner (W × List String)} (h : Recording services s)
    {service : ManagedService W} (hmem : service.descriptor.name ∈ services.map)
    {Q : Except SupervisorError Unit → SupervisorInner (W × List String) → Prop}
    (hQ : ∀ t, Recording services t → t.world.2 = s.world.2 → Q (.ok ()) t) :
    (recordStopFailure service.traced).wp (fun _ => True) Q s := by
  rw [recordStopFailure, wp_bind]
  refine wp_ask ?_
  dsimp only
  split
  · apply wp_changeRecord
    · exact h.recorded _ hmem
    · exact hQ _ (h.ofRecords rfl fun _ hother => Std.ExtTreeMap.mem_modify.2 hother) rfl
  · rw [wp_bind]
    refine wp_ask ?_
    dsimp only
    rw [wp_bind]
    apply wp_updateRecord
    · exact h.recorded _ hmem
    · intro previous
      exact wp_pure.2
        (hQ _ (h.ofRecords rfl fun _ hother => Std.ExtTreeMap.mem_modify.2 hother) rfl)

/-- **The stops of a shutdown**: the services that are left and enabled, in their order. -/
theorem wp_shutdownServices {s : SupervisorInner (W × List String)} (h : Recording services s)
    {names : List String} (hnames : ∀ name ∈ names, name ∈ services.map)
    (firstError : Option SupervisorError) :
    (shutdownServices names firstError).wp (fun _ => True)
      (fun r t => (∃ error, r = .ok error) ∧
        t.world.2 = s.world.2 ++ names.filter (enabledIn services)) s := by
  induction names generalizing s firstError with
  | nil =>
    refine wp_pure.2 ⟨⟨firstError, rfl⟩, ?_⟩
    rw [List.filter_nil, List.append_nil]
  | cons name names ih =>
    have hmem := hnames name List.mem_cons_self
    have hrest := fun a ha => hnames a (List.mem_cons_of_mem name ha)
    obtain ⟨service, hservice⟩ :=
      Option.isSome_iff_exists.1 (Std.ExtTreeMap.mem_iff_isSome_getElem?.1 hmem)
    have hnamed := services.named name service hservice
    have henabled : enabledIn services name = service.descriptor.activation.isEnabled := by
      rw [enabledIn, hservice, Option.any_some]
    have hfound : s.services.map[name]? = some service.traced := by
      rw [h.services_eq, getElem?_traced, hservice, Option.map_some]
    -- what follows a stop, whatever the service answered
    have hafter : ∀ (t : SupervisorInner (W × List String)) (error : Option SupervisorError),
        Recording services t → t.world.2 = s.world.2 ++ [name] →
        enabledIn services name = true →
        (shutdownServices names error).wp (fun _ => True)
          (fun r u => (∃ error, r = .ok error) ∧
            u.world.2 = s.world.2 ++ (name :: names).filter (enabledIn services)) t := by
      intro t error ht hworld hyes
      refine wp_mono (ih ht hrest error) (fun _ => id) fun r u hu => ⟨hu.1, ?_⟩
      rw [hu.2, hworld, List.filter_cons_of_pos hyes, List.append_assoc, List.singleton_append]
    rw [shutdownServices, SupervisorInner.service, wp_read_bind, hfound]
    refine ⟨fun found heq => ?_, nofun⟩
    cases heq
    by_cases hyes : service.traced.descriptor.activation.isEnabled = true
    · rw [if_neg (not_not.2 hyes), wp_bind]
      refine wp_ask ?_
      dsimp only
      have hworld : (service.traced.stop
          service.traced.descriptor.restartPolicy.shutdownTimeout s.world).2.2 =
            s.world.2 ++ [name] := congrArg (fun last => s.world.2 ++ [last]) hnamed
      have hstopped : Recording services { s with world := (service.traced.stop
          service.traced.descriptor.restartPolicy.shutdownTimeout s.world).2 } :=
        h.ofRecords rfl fun _ hother => hother
      split
      · rw [wp_bind, recordStopped, wp_bind]
        apply wp_updateRecord
        · exact h.recorded name hmem
        · intro previous
          refine wp_pure.2 (hafter _ firstError ?_ hworld (henabled.trans hyes))
          exact hstopped.ofRecords rfl fun _ hother => Std.ExtTreeMap.mem_modify.2 hother
      next error herror =>
        rw [wp_bind]
        refine wp_recordStopFailure hstopped (hnamed ▸ hmem) fun t ht hsame => ?_
        exact hafter t _ ht (hsame.trans hworld) (henabled.trans hyes)
    · rw [if_pos hyes]
      refine wp_mono (ih h hrest firstError) (fun _ => id) fun r t ht => ⟨ht.1, ?_⟩
      rw [ht.2, List.filter_cons_of_neg (by rw [henabled]; exact hyes)]

variable {s t : SupervisorInner W}

/-- Every registered service has a record. -/
def Recorded (s : SupervisorInner W) : Prop := ∀ name ∈ s.services.map, name ∈ s.records

/-- The services are stopped when the graph is valid; otherwise none is. -/
theorem stopCalls_eq (h : s.Recorded) :
    s.stopCalls = match validOrder s.services with
      | .ok order => order.reverse.filter s.isEnabled
      | .error _ => [] := by
  have hrecording : Recording s.services { s.traced with restartExecutor :=
      { s.traced.restartExecutor with commands := [], completions := [] } } := ⟨rfl, h⟩
  have hshutdown : (shutdown : Call (W × List String) Unit).wp (fun _ => True)
      (fun _ t => t.world.2 = match validOrder s.services with
        | .ok order => order.reverse.filter s.isEnabled
        | .error _ => []) s.traced := by
    rw [shutdown, shutdownExecutor, change, wp_bind, wp_step]
    refine ⟨fun t ht => ⟨trivial, ?_⟩, fun _ hfailed => by cases hfailed⟩
    cases ht
    dsimp only
    rw [validate, wp_read_bind]
    change (∀ order, validOrder s.services.traced = .ok order → _) ∧
      ∀ e, validOrder s.services.traced = .error e → _
    rw [validOrder_traced]
    refine ⟨fun order horder => ?_, fun e he => ?_⟩
    · have hknown : ∀ name ∈ order.reverse, name ∈ s.services.map := fun name hname =>
        (order_of_validOrder horder).1.known name (List.mem_reverse.1 hname)
      rw [horder, wp_bind]
      refine wp_mono (wp_shutdownServices hrecording hknown none) (fun _ => id) fun r t ht => ?_
      obtain ⟨⟨error, rfl⟩, hworld⟩ := ht
      cases error with
      | none => exact wp_pure.2 hworld
      | some error => exact wp_fail.2 hworld
    · rw [he]
      rfl
  exact hshutdown.2

/-! ## The states that are reached -/

theorem moves_startAll {keep : String → RuntimeRecord → RuntimeRecord → Prop} {quiet : Prop}
    (hsame : ∀ name old new, SameRestarts old new → keep name old new) :
    Moves (Framed keep quiet) (startAll : Call W Unit) := by
  refine moves_bind (moves_read _) fun order => moves_each order fun name _ => ?_
  refine moves_bind (moves_read _) fun service => ?_
  split
  · exact moves_start hsame name
  · exact moves_pure ()

theorem Recorded.of_moves {α : Type} {call : Call W α}
    (hcall : Moves (Framed (fun _ _ _ => True) False) call) (h : s.Recorded) :
    (call.final s).Recorded := by
  refine (hcall.keeps (I := Recorded) fun s t hs hst name hname => ?_).final h
  rw [hst.services] at hname
  exact hst.mem_records.2 (hs name hname)

theorem Recorded.insert (h : s.Recorded) (service : ManagedService W) :
    (s.enrolled service).Recorded := by
  intro name hname
  unfold enrolled Services.insert at hname
  unfold enrolled
  rw [Std.ExtTreeMap.mem_insert] at hname ⊢
  exact hname.imp id (h name)

theorem Recorded.register (h : s.Recorded) (service : ManagedService W) :
    ((SupervisorInner.register service).final s).Recorded := by
  rcases register_cases service s with ⟨-, -, hfinal⟩ | ⟨-, hfinal⟩
  · rw [hfinal]
    exact h.insert service
  · rwa [hfinal]

theorem Recorded.registerOrReplaceInactive (h : s.Recorded) (service : ManagedService W) :
    ((SupervisorInner.registerOrReplaceInactive service).final s).Recorded := by
  rcases registerOrReplaceInactive_cases service s with ⟨-, -, hfinal⟩ | ⟨-, hfinal⟩
  · rw [hfinal]
    exact h.insert service
  · rwa [hfinal]

theorem recorded_lifecycle {step : LifecycleStep W} (h : s.Recorded)
    (hstep : s.lifecycle step = some t) : t.Recorded := by
  have hany := fun (name : String) (old new : RuntimeRecord) (_ : SameRestarts old new) => trivial
  have hkeep := fun (name : String) (old new : RuntimeRecord) (_ : Unscheduled old new) => trivial
  have hschedule (service : ManagedService W) (timestampMs : UInt64) :
      Moves (Framed (fun _ _ _ => True) False) (scheduleRestart service timestampMs) :=
    moves_scheduleRestart hany (fun _ _ => trivial) timestampMs
  cases step with
  | startAll =>
    cases hstep
    exact h.of_moves (moves_startAll hany)
  | other step =>
    cases step with
    | register service =>
      cases hstep
      exact h.register service
    | registerOrReplaceInactive service =>
      cases hstep
      exact h.registerOrReplaceInactive service
    | start name =>
      cases hstep
      exact h.of_moves (moves_start hany name)
    | reconcile timestampMs =>
      cases hstep
      exact h.of_moves (moves_reconcile hkeep fun _ _ service _ => hschedule service timestampMs)
    | restart name timestampMs =>
      cases hstep
      exact h.of_moves (moves_restart hkeep fun _ service _ => hschedule service timestampMs)
    | stop name =>
      cases hstep
      exact h.of_moves (moves_stop hkeep name)
    | takeCommand =>
      obtain ⟨hservices, hrecords⟩ := takeCommand_frame hstep
      unfold Recorded
      rwa [hservices, hrecords]
    | worker index =>
      obtain ⟨hservices, hrecords⟩ := workerStep_frame hstep
      unfold Recorded
      rwa [hservices, hrecords]
    | environment world =>
      cases hstep
      exact h

theorem recorded_of_run {createdAtMs : UInt64} {world : W} {steps : List (LifecycleStep W)}
    (hrun : runFrom lifecycle (.new createdAtMs world) steps = some s) : s.Recorded :=
  (throughout_of_step (P := fun _ _ => True) (fun name hname => absurd hname (by
      simp [SupervisorInner.new, Services.empty]))
    (fun _ _ _ h _ hstep => recorded_lifecycle h hstep) fun _ _ _ _ _ _ => trivial).final hrun

/-- A valid graph is stopped as it should be. -/
theorem reaches_of_order {order : List String} (h : s.Recorded)
    (horder : validOrder s.services = .ok order) : s.ShutdownReaches := by
  obtain ⟨hordered, hall⟩ := order_of_validOrder horder
  have hstops : s.stopCalls = order.reverse.filter s.isEnabled := by rw [stopCalls_eq h, horder]
  have hmem : ∀ name, s.isEnabled name = true → name ∈ order := by
    intro name hname
    unfold isEnabled at hname
    obtain ⟨service, hservice, -⟩ := (Option.any_eq_true _ _).1 hname
    exact hall name (Std.ExtTreeMap.mem_iff_isSome_getElem?.2 (by rw [hservice]; rfl))
  refine ⟨fun name hname => ?_, fun name dependency hdepends hname hdependency => ?_⟩
  · rw [hstops]
    refine List.count_eq_one_of_mem ((List.nodup_reverse.2 hordered.nodup).filter _) ?_
    exact List.mem_filter.2 ⟨List.mem_reverse.2 (hmem name hname), hname⟩
  · obtain ⟨before, rest, heq⟩ := List.append_of_mem (hmem name hname)
    have hbefore := hordered.before heq hdepends
    have hsub : [dependency, name].Sublist order := by
      rw [heq]
      exact (List.singleton_sublist.2 hbefore).append
        (List.singleton_sublist.2 (List.mem_cons_self (l := rest)))
    have hfiltered := hsub.reverse.filter s.isEnabled
    rw [hstops]
    simpa [hname, hdependency] using hfiltered

end SupervisorInner

open SupervisorInner in
/-- **A shutdown reaches every service** that is enabled, exactly when the graph of the services is
valid or there is none. -/
theorem shutdown_reaches_iff {W : Type} (createdAtMs : UInt64) (world : W)
    (steps : List (LifecycleStep W)) (s : SupervisorInner W)
    (hrun : runFrom lifecycle (.new createdAtMs world) steps = some s) :
    s.ShutdownReaches ↔ ValidGraph s.services ∨ ∀ name, s.isEnabled name = false := by
  have hrecorded := recorded_of_run hrun
  constructor
  · intro h
    by_cases hvalid : ValidGraph s.services
    · exact Or.inl hvalid
    · refine Or.inr fun name => ?_
      have hnone : s.stopCalls = [] := by
        rw [stopCalls_eq hrecorded]
        cases horder : validOrder s.services with
        | ok order => exact absurd (validOrder_isOk_iff.1 ⟨order, horder⟩) hvalid
        | error e => rfl
      by_contra hname
      have honce := h.once name (Bool.not_eq_false _ ▸ hname)
      rw [hnone] at honce
      cases honce
  · intro h
    rcases h with hvalid | hnone
    · obtain ⟨order, horder⟩ := validOrder_isOk_iff.2 hvalid
      exact reaches_of_order hrecorded horder
    · exact ⟨fun name hname => absurd hname (by rw [hnone]; decide),
        fun name _ _ hname => absurd hname (by rw [hnone]; decide)⟩

/-! ### Runs -/

open SupervisorInner

/-- A passive service that depends on another one. -/
def dependentService (name dependency : String) (requirement : DependencyRequirement) :
    ManagedService ServiceHealth :=
  passiveService { ServiceDescriptor.new name .default with
    dependencies := [{ serviceId := dependency, requirement }] }

/-- Where a sample run ends. -/
def sampleState (steps : List (LifecycleStep ServiceHealth)) : SupervisorInner ServiceHealth :=
  (runFrom lifecycle (.new 1 .unknown) steps).getD (.new 1 .unknown)

theorem run_sampleState {steps : List (LifecycleStep ServiceHealth)}
    (h : (runFrom lifecycle (.new 1 .unknown) steps).isSome = true) :
    runFrom lifecycle (.new 1 .unknown) steps = some (sampleState steps) := by
  obtain ⟨s, hs⟩ := Option.isSome_iff_exists.1 h
  rw [sampleState, hs, Option.getD_some]

/-- Two services, one of which needs the other, are registered and started. -/
def dependentSteps : List (LifecycleStep ServiceHealth) :=
  [.other (.register (passiveService (.new "runtime" .default))),
    .other (.register (dependentService "peer-rpc" "runtime" .ready)), .startAll]

theorem shutdown_reaches_dependent :
    (sampleState dependentSteps).ShutdownReaches ↔
      ValidGraph (sampleState dependentSteps).services ∨
        ∀ name, (sampleState dependentSteps).isEnabled name = false :=
  shutdown_reaches_iff 1 .unknown dependentSteps _ (run_sampleState (by decide))

/-- Two services that depend on one another are started after one another. -/
def cyclicSteps : List (LifecycleStep ServiceHealth) :=
  [.other (.register (dependentService "first" "second" .optional)), .other (.start "first"),
    .other (.register (dependentService "second" "first" .ready)), .other (.start "second")]

/-- Both run, and a shutdown stops neither of them. -/
theorem running_after_shutdown :
    (["first", "second"].map fun name =>
        (sampleState cyclicSteps).records[name]?.map RuntimeRecord.runtimeState) =
      [some .running, some .running] ∧
    ¬ ∀ s, runFrom lifecycle (.new 1 .unknown) cyclicSteps = some s → s.ShutdownReaches := by
  refine ⟨by decide, fun h => ?_⟩
  have honce := (h _ (run_sampleState (by decide))).once "first" (by decide)
  have hnone : (sampleState cyclicSteps).stopCalls = [] := by decide
  rw [hnone] at honce
  cases honce

end AppCore.Supervisor
