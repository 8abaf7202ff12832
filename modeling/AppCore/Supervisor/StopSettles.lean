import AppCore.Supervisor.ManagedThread

/-!
# How a stop ends

`ManagedThreadService::stop` marks the service as stopping before it waits for the thread, and writes
what became of it afterwards. One of its exits skips that: when `join` reports a panic, the error is
passed on before the state is locked again.

* `stop_settles_iff` — a stop that runs alone leaves the service stopped without a thread, or orphaned
  with one that has not finished, exactly when the thread does not panic while the stop waits.
-/

namespace AppCore.Supervisor

/-- What may happen while a stop waits, when there is no other lifecycle call: threads end or set
their flags, and the state of the service is looked at. -/
def ThreadStep.IsQuiet : ThreadStep → Prop
  | .finished _ _ | .raised _ | .health _ | .runtimeState => True
  | .start _ | .stop | .stopped _ => False

namespace ManagedThreadService

/-- A whole call of `stop`, and what happens while it waits. -/
def stopCall (service : ManagedThreadService) (meanwhile : List ThreadStep) :
    Option ManagedThreadService :=
  match service.stop.1 with
  | .ok (some runtime) =>
    (service.stopSection.run meanwhile).map fun later =>
      later.stoppedSection service.waiting.length runtime
  | _ => some service.stop.2

/-- The service is stopped and has no thread, or it is orphaned and keeps one that has not
finished. -/
def Settled (service : ManagedThreadService) : Prop :=
  (service.state.runtimeState = .stopped ∧ service.state.runtime = none) ∨
    (service.state.runtimeState = .orphaned ∧
      ∃ runtime, service.state.runtime = some runtime ∧ service.Unfinished runtime.handle)

/-- The service has a thread to wait for, and that panics in the meantime. -/
def PanicsMeanwhile (service : ManagedThreadService) (meanwhile : List ThreadStep) : Prop :=
  service.state.runtimeState ≠ .orphaned ∧ ∃ runtime, service.state.runtime = some runtime ∧
    service.Unfinished runtime.handle ∧ .finished runtime.handle .panicked ∈ meanwhile

variable {service service' : ManagedThreadService} {t : Nat}

/-! ## What is orphaned has a thread -/

def OrphanHeld (service : ManagedThreadService) : Prop :=
  service.state.runtimeState = .orphaned → service.state.runtime ≠ none

theorem refresh_cases (service : ManagedThreadService) :
    service.refresh = service ∨
      service.refresh.state.runtime = none ∧ service.refresh.state.runtimeState ≠ .orphaned := by
  unfold refresh
  split
  · exact Or.inl rfl
  · split
    · right
      split
      · exact ⟨rfl, (fun h => by cases h)⟩
      · exact ⟨rfl, (fun h => by cases h)⟩
    · exact Or.inl rfl

theorem OrphanHeld.refresh (h : service.OrphanHeld) : service.refresh.OrphanHeld := by
  rcases service.refresh_cases with hsame | ⟨-, hne⟩
  · rw [hsame]
    exact h
  · exact fun horphaned => absurd horphaned hne

theorem orphanHeld_start (h : service.OrphanHeld) (factory : Except String Unit) :
    (service.start factory).2.OrphanHeld := by
  have hr := h.refresh
  unfold start
  dsimp only
  split
  · exact hr
  · split
    · exact hr
    · split
      · exact (fun h => by cases h)
      · cases factory with
        | error reason => exact (fun h => by cases h)
        | ok u => exact (fun h => by cases h)

theorem orphanHeld_stop (h : service.OrphanHeld) : service.stopSection.OrphanHeld := by
  unfold stopSection stop
  dsimp only
  by_cases horphaned : service.refresh.state.runtimeState = .orphaned
  · rw [if_pos horphaned]
    exact h.refresh
  · rw [if_neg horphaned]
    cases service.refresh.state.runtime with
    | none => exact (fun h => by cases h)
    | some runtime => exact (fun h => by cases h)

theorem orphanHeld_stopped (h : service.OrphanHeld) (call : Nat) (runtime : ThreadRuntime) :
    (service.stoppedSection call runtime).OrphanHeld := by
  unfold stoppedSection stopped
  cases service.threads[runtime.handle]?.bind Thread.ended with
  | none => exact fun _ => Option.some_ne_none runtime
  | some ended =>
    cases ended with
    | panicked => exact h
    | returned result => exact (fun h => by cases h)

variable {step : ThreadStep}

theorem orphanHeld_step (h : service.OrphanHeld) (hstep : service.step step = some service') :
    service'.OrphanHeld := by
  cases step with
  | start factory =>
    cases hstep
    exact orphanHeld_start h factory
  | stop =>
    cases hstep
    exact orphanHeld_stop h
  | stopped call =>
    obtain ⟨runtime, -, rfl⟩ := Option.map_eq_some_iff.1 hstep
    exact orphanHeld_stopped h call runtime
  | health probe =>
    cases hstep
    rw [health_state]
    exact h.refresh
  | runtimeState =>
    cases hstep
    exact h.refresh
  | finished t ended =>
    obtain ⟨shutdown, -, rfl⟩ := finished_step hstep
    exact h
  | raised t =>
    cases hstep
    exact h

theorem orphanHeld_run {steps : List ThreadStep} (h : service.OrphanHeld)
    (hrun : service.run steps = some service') : service'.OrphanHeld := by
  induction steps generalizing service with
  | nil =>
    cases hrun
    exact h
  | cons step steps ih =>
    obtain ⟨s, hstep, hrun⟩ := Option.bind_eq_some_iff.1 hrun
    exact ih (orphanHeld_step h hstep) hrun

theorem orphanHeld_new (descriptor : ServiceDescriptor) : (new descriptor).OrphanHeld :=
  fun h => by cases h

/-! ## While a stop waits -/

/-- What a thread returned. -/
def endOf (service : ManagedThreadService) (t : Nat) : Option ThreadEnd :=
  service.threads[t]?.bind Thread.ended

theorem unfinished_iff (hknown : t < service.threads.length) :
    service.Unfinished t ↔ service.endOf t = none := by
  unfold Unfinished endOf
  rw [List.getElem?_eq_getElem hknown, Option.bind_some]
  constructor
  · intro h
    obtain ⟨shutdown, hthread⟩ := h
    rw [Option.some.inj hthread]
  · intro h
    exact ⟨service.threads[t].shutdown, by rw [← h]⟩

theorem endOf_storeShutdown (u : Nat) : (service.storeShutdown u).endOf t = service.endOf t := by
  unfold endOf storeShutdown
  rw [List.getElem?_modify]
  cases service.threads[t]? with
  | none => rfl
  | some thread =>
    by_cases hu : u = t
    · simp [hu]
    · simp [hu]

/-- What a step leaves alone while a stop waits, and which thread it ends. -/
structure Quietly (t : Nat) (step : ThreadStep) (service service' : ManagedThreadService) : Prop where
  state : service'.state = service.state
  length : service'.threads.length = service.threads.length
  waiting : service'.waiting = service.waiting
  ends : ∀ ended, service'.endOf t = some ended ↔
    service.endOf t = some ended ∨ step = .finished t ended

theorem quietly_of_threads (hstep : ∀ ended, step ≠ .finished t ended)
    (hstate : service'.state = service.state)
    (hlength : service'.threads.length = service.threads.length)
    (hwaiting : service'.waiting = service.waiting) (hends : service'.endOf t = service.endOf t) :
    Quietly t step service service' := by
  refine ⟨hstate, hlength, hwaiting, fun ended => ?_⟩
  rw [hends]
  constructor
  · exact Or.inl
  · intro h
    exact h.resolve_right (hstep ended)

theorem refresh_of_none (h : service.state.runtime = none) : service.refresh = service := by
  unfold refresh
  rw [h]

theorem quietly_finished {u : Nat} {ended : ThreadEnd} (hlt : t < service.threads.length)
    (hstep : service.step (.finished u ended) = some service') :
    Quietly t (.finished u ended) service service' := by
  obtain ⟨shutdown, hthread, rfl⟩ := finished_step hstep
  refine ⟨rfl, List.length_set, rfl, fun other => ?_⟩
  have hset : endOf { service with threads := service.threads.set u { shutdown, ended := some ended } }
      t = if u = t then some ended else service.endOf t := by
    unfold endOf
    rw [List.getElem?_set]
    by_cases hu : u = t
    · rw [if_pos hu, if_pos (hu ▸ hlt), if_pos hu]
      rfl
    · rw [if_neg hu, if_neg hu]
  rw [hset]
  by_cases hu : u = t
  · subst hu
    have hnone : service.endOf u = none := by
      unfold endOf
      rw [hthread]
      rfl
    rw [if_pos rfl, hnone]
    simp
  · rw [if_neg hu]
    constructor
    · exact Or.inl
    · intro h
      rcases h with hold | heq
      · exact hold
      · exact absurd (ThreadStep.finished.inj heq).1 hu

/-- The step lemma of the wait. -/
theorem quietly_step (hquiet : step.IsQuiet) (hnone : service.state.runtime = none)
    (hlt : t < service.threads.length) (hstep : service.step step = some service') :
    Quietly t step service service' := by
  cases step with
  | start factory => exact absurd hquiet id
  | stop => exact absurd hquiet id
  | stopped call => exact absurd hquiet id
  | health probe =>
    cases hstep
    rw [health_state, refresh_of_none hnone]
    exact quietly_of_threads (fun _ h => by cases h) rfl rfl rfl rfl
  | runtimeState =>
    cases hstep
    rw [runtimeState, refresh_of_none hnone]
    exact quietly_of_threads (fun _ h => by cases h) rfl rfl rfl rfl
  | finished u ended => exact quietly_finished hlt hstep
  | raised u =>
    cases hstep
    refine quietly_of_threads (fun _ h => by cases h) rfl ?_ rfl (endOf_storeShutdown u)
    exact List.length_modify _ _ _

/-- **The wait**: the state stays as the stop left it, and a thread has ended as some step says. -/
theorem quietly_run {steps : List ThreadStep} (hquiet : ∀ step ∈ steps, step.IsQuiet)
    (hnone : service.state.runtime = none) (hlt : t < service.threads.length)
    (hrun : service.run steps = some service') :
    service'.state = service.state ∧ service'.threads.length = service.threads.length ∧
      service'.waiting = service.waiting ∧
      ∀ ended, service'.endOf t = some ended ↔
        service.endOf t = some ended ∨ .finished t ended ∈ steps := by
  induction steps generalizing service with
  | nil =>
    cases hrun
    refine ⟨rfl, rfl, rfl, fun ended => ?_⟩
    rw [List.mem_nil_iff, or_false]
  | cons step steps ih =>
    obtain ⟨next, hstep, hrest⟩ := Option.bind_eq_some_iff.1 hrun
    have hq := quietly_step (hquiet step List.mem_cons_self) hnone hlt hstep
    obtain ⟨hstate, hlength, hwaiting, hends⟩ :=
      ih (fun s hs => hquiet s (List.mem_cons_of_mem step hs)) (hq.state ▸ hnone)
        (hq.length ▸ hlt) hrest
    refine ⟨hstate.trans hq.state, hlength.trans hq.length, hwaiting.trans hq.waiting,
      fun ended => ?_⟩
    rw [hends, hq.ends, List.mem_cons, or_assoc, eq_comm (a := step)]

/-! ## The end of a stop -/

variable {runtime : ThreadRuntime}

theorem endOf_of_refresh (hsame : service.refresh = service)
    (hruntime : service.state.runtime = some runtime) : service.endOf runtime.handle = none := by
  by_contra hend
  have hdone : service.isFinished runtime = true := Option.isSome_iff_ne_none.2 hend
  have hnone : service.refresh.state.runtime = none := by
    unfold refresh
    rw [hruntime]
    dsimp only
    rw [if_pos hdone]
    dsimp only
    split <;> rfl
  rw [hsame, hruntime] at hnone
  cases hnone

/-- A stop that finds nothing to wait for, or that leaves an orphan alone. -/
theorem settled_of_returned (hknown : service.Known) (hheld : service.OrphanHeld)
    (hresult : ∀ runtime, service.stop.1 ≠ .ok (some runtime)) : service.stop.2.Settled := by
  have hknown' := hknown.refresh
  have hheld' := hheld.refresh
  have hfinished : ∀ runtime, service.refresh.state.runtime = some runtime →
      service.refresh.Unfinished runtime.handle := by
    intro runtime hruntime
    rw [unfinished_iff (hknown'.held runtime hruntime)]
    rcases service.refresh_cases with hsame | ⟨hnone, -⟩
    · rw [hsame] at hruntime ⊢
      exact endOf_of_refresh hsame hruntime
    · rw [hnone] at hruntime
      cases hruntime
  unfold stop at hresult ⊢
  dsimp only at hresult ⊢
  by_cases horphaned : service.refresh.state.runtimeState = .orphaned
  · rw [if_pos horphaned]
    obtain ⟨runtime, hruntime⟩ := Option.ne_none_iff_exists'.1 (hheld' horphaned)
    exact Or.inr ⟨horphaned, runtime, hruntime, hfinished runtime hruntime⟩
  · rw [if_neg horphaned] at hresult ⊢
    cases hruntime : service.refresh.state.runtime with
    | none => exact Or.inl ⟨rfl, rfl⟩
    | some runtime =>
      rw [hruntime] at hresult
      exact absurd rfl (hresult runtime)

/-- A stop that goes on to wait has a thread that has not finished. -/
theorem waits_of_stop (hknown : service.Known) (hresult : service.stop.1 = .ok (some runtime)) :
    service.state.runtimeState ≠ .orphaned ∧ service.state.runtime = some runtime ∧
      service.Unfinished runtime.handle ∧
      service.stopSection =
        { service.storeShutdown runtime.handle with
          state := { health := .stopping, runtimeState := .stopping, runtime := none }
          waiting := service.waiting ++ [runtime] } := by
  have hsection : service.stopSection =
      { service.stop.2 with waiting := service.stop.2.waiting ++ [runtime] } := by
    unfold stopSection
    rw [← Prod.mk.eta (p := service.stop), hresult]
  unfold stop at hresult hsection
  dsimp only at hresult hsection
  by_cases horphaned : service.refresh.state.runtimeState = .orphaned
  · rw [if_pos horphaned] at hresult
    cases hresult
  · rw [if_neg horphaned] at hresult hsection
    cases hruntime : service.refresh.state.runtime with
    | none =>
      rw [hruntime] at hresult
      cases hresult
    | some held =>
      rw [hruntime] at hresult hsection
      obtain rfl := Option.some.inj (Except.ok.inj hresult)
      rcases service.refresh_cases with hsame | ⟨hnone, -⟩
      · have hheld : service.state.runtime = some held := hsame ▸ hruntime
        rw [hsame] at horphaned hsection
        refine ⟨horphaned, hheld, ?_, hsection⟩
        rw [unfinished_iff (hknown.held held hheld)]
        exact endOf_of_refresh hsame hheld
      · rw [hnone] at hruntime
        cases hruntime

theorem stop_of_unfinished (horphaned : service.state.runtimeState ≠ .orphaned)
    (hruntime : service.state.runtime = some runtime) (hrunning : service.Unfinished runtime.handle) :
    service.stop.1 = .ok (some runtime) := by
  have hsame : service.refresh = service := by
    obtain ⟨shutdown, hthread⟩ := hrunning
    unfold refresh isFinished
    rw [hruntime]
    dsimp only
    rw [hthread]
    rfl
  unfold stop
  dsimp only
  rw [hsame, if_neg horphaned, hruntime]

/-- How a stop ends that has waited for a thread. -/
theorem settled_stopped (hlt : runtime.handle < service.threads.length)
    (hstopping : service.state.runtimeState = .stopping) (hnone : service.state.runtime = none)
    {call : Nat} :
    (service.stoppedSection call runtime).Settled ↔
      service.endOf runtime.handle ≠ some .panicked := by
  unfold stoppedSection stopped
  cases hend : service.threads[runtime.handle]?.bind Thread.ended with
  | none =>
    have hrunning : service.Unfinished runtime.handle := (unfinished_iff hlt).2 hend
    have hend' : service.endOf runtime.handle = none := hend
    rw [hend']
    constructor
    · exact fun _ h => by cases h
    · exact fun _ => Or.inr ⟨rfl, runtime, rfl, hrunning⟩
  | some ended =>
    have hend' : service.endOf runtime.handle = some ended := hend
    rw [hend']
    cases ended with
    | panicked =>
      constructor
      · intro h
        rcases h with ⟨hstate, -⟩ | ⟨hstate, -⟩
        · exact absurd (hstopping.symm.trans hstate) (by decide)
        · exact absurd (hstopping.symm.trans hstate) (by decide)
      · intro h
        exact absurd rfl h
    | returned result =>
      constructor
      · exact fun _ h => by cases h
      · exact fun _ => Or.inl ⟨rfl, hnone⟩

end ManagedThreadService

open ManagedThreadService

/-- **When a stop settles**: from any state that a run reaches, with no other lifecycle call while it
waits, a stop leaves the service stopped without a thread or orphaned with an unfinished one, if and
only if the thread that it waits for does not panic. -/
theorem stop_settles_iff (descriptor : ServiceDescriptor) (steps : List ThreadStep)
    (service : ManagedThreadService) (hrun : (new descriptor).run steps = some service)
    (meanwhile : List ThreadStep)
    (hquiet : ∀ step ∈ meanwhile, step.IsQuiet) (final : ManagedThreadService)
    (hstop : service.stopCall meanwhile = some final) :
    final.Settled ↔ ¬ service.PanicsMeanwhile meanwhile := by
  have hknown := known_run (known_new descriptor) hrun
  have hheld := orphanHeld_run (orphanHeld_new descriptor) hrun
  by_cases hwaits : ∃ runtime, service.stop.1 = .ok (some runtime)
  · obtain ⟨runtime, hresult⟩ := hwaits
    obtain ⟨horphaned, hruntime, hrunning, hsection⟩ := waits_of_stop hknown hresult
    have hlt := hknown.held runtime hruntime
    unfold stopCall at hstop
    rw [hresult, hsection] at hstop
    obtain ⟨later, hlater, rfl⟩ := Option.map_eq_some_iff.1 hstop
    have hlength : (service.storeShutdown runtime.handle).threads.length = service.threads.length :=
      List.length_modify _ _ _
    obtain ⟨hstate, hthreads, hwaiting, hends⟩ :=
      quietly_run (t := runtime.handle) hquiet rfl (hlength ▸ hlt) hlater
    have hend : later.endOf runtime.handle = some .panicked ↔
        .finished runtime.handle .panicked ∈ meanwhile := by
      have hbefore : service.endOf runtime.handle = none := (unfinished_iff hlt).1 hrunning
      rw [hends]
      change (service.storeShutdown runtime.handle).endOf runtime.handle = _ ∨ _ ↔ _
      rw [endOf_storeShutdown, hbefore]
      simp
    rw [settled_stopped (hthreads ▸ hlength ▸ hlt) (by rw [hstate]) (by rw [hstate]), Ne, hend]
    refine not_congr ⟨fun h => ⟨horphaned, runtime, hruntime, hrunning, h⟩, fun h => ?_⟩
    obtain ⟨-, other, hother, -, hpanics⟩ := h
    rw [hruntime] at hother
    rw [Option.some.inj hother]
    exact hpanics
  · rw [not_exists] at hwaits
    have hfinal : final = service.stop.2 := by
      unfold stopCall at hstop
      split at hstop
      next runtime heq => exact absurd heq (hwaits runtime)
      next => exact (Option.some.inj hstop).symm
    rw [hfinal]
    refine iff_of_true (settled_of_returned hknown hheld hwaits) ?_
    intro h
    obtain ⟨horphaned, runtime, hruntime, hrunning, -⟩ := h
    exact hwaits runtime (stop_of_unfinished horphaned hruntime hrunning)

/-- A thread that panics while it is stopped leaves the service stopping. -/
theorem stop_unsettled :
    ¬ (∀ (descriptor : ServiceDescriptor) (steps : List ThreadStep) (service : ManagedThreadService),
      (new descriptor).run steps = some service →
      ∀ meanwhile : List ThreadStep, (∀ step ∈ meanwhile, step.IsQuiet) →
      ∀ final, service.stopCall meanwhile = some final → final.Settled) ∧
    ∃ service final, (new (.new "worker" .default)).run [.start (.ok ())] = some service ∧
      service.stopCall [.finished 0 .panicked] = some final ∧
      final.state = { health := .stopping, runtimeState := .stopping, runtime := none } := by
  refine ⟨fun h => ?_, _, _, rfl, rfl, rfl⟩
  have hsettled := h (.new "worker" .default) [.start (.ok ())] _ rfl [.finished 0 .panicked]
    (fun step hstep => by rw [List.mem_singleton.1 hstep]; trivial) _ rfl
  rcases hsettled with ⟨hstate, -⟩ | ⟨hstate, -⟩
  · cases hstate
  · cases hstate

/-- A thread that does not finish is kept. -/
theorem stop_settles_timeout :
    ∃ final, ((new (.new "worker" .default)).start (.ok ())).2.stopCall [] = some final ∧
      final.Settled := by
  refine ⟨_, rfl, ?_⟩
  refine (stop_settles_iff (.new "worker" .default) [.start (.ok ())] _ rfl [] (by simp) _ rfl).2
    ?_
  intro h
  obtain ⟨-, runtime, -, -, hpanics⟩ := h
  cases hpanics

end AppCore.Supervisor
