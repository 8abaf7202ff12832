import Mathlib.Data.List.Induction
import Mathlib.Tactic.Common

/-!
# Runs of a system

A system is a step function that says where a step leads, or that it cannot be made. A run is a list
of steps, each made where the ones before it lead (`runFrom`).

What an assumption about single steps (`EachStep`) and an invariant that every such step keeps give
for whole runs is stated once: the invariant holds throughout (`throughout_of_step`), and with it
what it says about the next step (`Throughout.eachStep`). A run that is written down is checked from
its first step on (`eachStep_cons`).
-/

namespace AppCore

variable {σ ε : Type} {step : σ → ε → Option σ} {s s' : σ}

/-- Where the steps lead from `s`, when all of them can be made. -/
def runFrom (step : σ → ε → Option σ) (s : σ) (steps : List ε) : Option σ := steps.foldlM step s

/-- Every step of the run is one that `P` admits in the state in which it is made. -/
def EachStep (step : σ → ε → Option σ) (P : σ → ε → Prop) (s : σ) (steps : List ε) : Prop :=
  ∀ before e after s', steps = before ++ e :: after → runFrom step s before = some s' → P s' e

/-- Every state that the run reaches satisfies `P`. -/
def Throughout (step : σ → ε → Option σ) (P : σ → Prop) (s : σ) (steps : List ε) : Prop :=
  ∀ before after s', steps = before ++ after → runFrom step s before = some s' → P s'

@[simp] theorem runFrom_nil (s : σ) : runFrom step s [] = some s := rfl

theorem runFrom_cons (s : σ) (e : ε) (steps : List ε) :
    runFrom step s (e :: steps) = (step s e).bind fun s' => runFrom step s' steps := rfl

theorem runFrom_append (s : σ) (before after : List ε) :
    runFrom step s (before ++ after) =
      (runFrom step s before).bind fun s' => runFrom step s' after :=
  List.foldlM_append

variable {steps : List ε}

theorem runFrom_concat_eq_some {e : ε} :
    runFrom step s (steps ++ [e]) = some s' ↔
      ∃ mid, runFrom step s steps = some mid ∧ step mid e = some s' := by
  rw [runFrom_append, Option.bind_eq_some_iff]
  refine exists_congr fun mid => and_congr_right fun _ => ?_
  rw [runFrom_cons, Option.bind_eq_some_iff]
  constructor
  · intro h
    obtain ⟨last, hstep, hnil⟩ := h
    cases hnil
    exact hstep
  · intro hstep
    exact ⟨s', hstep, rfl⟩

theorem eachStep_nil (P : σ → ε → Prop) (s : σ) : EachStep step P s [] := by
  intro before e after s' heq
  simp at heq

/-- A run is checked from its first step on. -/
theorem eachStep_cons {P : σ → ε → Prop} {e : ε} :
    EachStep step P s (e :: steps) ↔
      P s e ∧ ∀ s', step s e = some s' → EachStep step P s' steps := by
  constructor
  · intro h
    refine ⟨h [] e steps s rfl rfl, fun s' hstep before e' after s'' heq hrun => ?_⟩
    exact h (e :: before) e' after s'' (by rw [heq, List.cons_append])
      (by rw [runFrom_cons, hstep]; exact hrun)
  · intro h before e' after s' heq hrun
    obtain ⟨hfirst, hrest⟩ := h
    cases before with
    | nil =>
      cases heq
      cases hrun
      exact hfirst
    | cons first before =>
      cases heq
      obtain ⟨mid, hstep, hrun⟩ := Option.bind_eq_some_iff.1 hrun
      exact hrest mid hstep before e' after s' rfl hrun

/-- A run is checked part by part. -/
theorem eachStep_append {P : σ → ε → Prop} {before after : List ε} :
    EachStep step P s (before ++ after) ↔ EachStep step P s before ∧
      ∀ s', runFrom step s before = some s' → EachStep step P s' after := by
  induction before generalizing s with
  | nil =>
    constructor
    · intro h
      exact ⟨eachStep_nil P s, fun s' hs' => Option.some.inj hs' ▸ h⟩
    · intro h
      exact h.2 s rfl
  | cons e before ih =>
    rw [List.cons_append, eachStep_cons, eachStep_cons, and_assoc]
    refine and_congr_right fun _ => ?_
    constructor
    · intro h
      refine ⟨fun s' hs' => (ih.1 (h s' hs')).1, fun s' hs' => ?_⟩
      obtain ⟨mid, hmid, hrun⟩ := Option.bind_eq_some_iff.1 hs'
      exact (ih.1 (h mid hmid)).2 s' hrun
    · intro h s' hs'
      refine ih.2 ⟨h.1 s' hs', fun last hlast => h.2 last ?_⟩
      rw [runFrom_cons, hs']
      exact hlast

/-- Whether `p` admits every step of a run. -/
def checkSteps (step : σ → ε → Option σ) (p : σ → ε → Bool) : σ → List ε → Bool
  | _, [] => true
  | s, e :: steps => p s e && (step s e).all fun s' => checkSteps step p s' steps

theorem eachStep_of_check {p : σ → ε → Bool} (h : checkSteps step p s steps = true) :
    EachStep step (fun s e => p s e = true) s steps := by
  induction steps generalizing s with
  | nil => exact eachStep_nil _ s
  | cons e steps ih =>
    obtain ⟨hfirst, hrest⟩ := Bool.and_eq_true_iff.1 h
    refine eachStep_cons.2 ⟨hfirst, fun s' hstep => ih ?_⟩
    rw [hstep] at hrest
    exact hrest

section

variable {P : σ → ε → Prop} [∀ s e, Decidable (P s e)]

/-- Where a run leads, when `P` admits every step of it. -/
def checkRun (step : σ → ε → Option σ) (P : σ → ε → Prop) [∀ s e, Decidable (P s e)] (s : σ)
    (steps : List ε) : Option σ :=
  runFrom (fun s e => if P s e then step s e else none) s steps

theorem of_checkRun {steps : List ε} (h : checkRun step P s steps = some s') :
    runFrom step s steps = some s' ∧ EachStep step P s steps := by
  induction steps generalizing s with
  | nil => exact ⟨h, eachStep_nil _ s⟩
  | cons e steps ih =>
    rw [checkRun, runFrom_cons] at h
    by_cases hfirst : P s e
    · rw [if_pos hfirst] at h
      obtain ⟨mid, hstep, hrest⟩ := Option.bind_eq_some_iff.1 h
      obtain ⟨hrun, heach⟩ := ih hrest
      refine ⟨by rw [runFrom_cons, hstep]; exact hrun, eachStep_cons.2 ⟨hfirst, ?_⟩⟩
      intro next hnext
      rw [hstep] at hnext
      exact Option.some.inj hnext ▸ heach
    · rw [if_neg hfirst] at h
      cases h

end

theorem EachStep.of_append {P : σ → ε → Prop} {before after : List ε}
    (h : EachStep step P s (before ++ after)) : EachStep step P s before :=
  fun first e rest s' heq hrun => h first e (rest ++ after) s' (by simp [heq]) hrun

variable {Inv : σ → Prop}

/-- **The invariant rule.** What holds at the start and is kept by every step that is admitted holds
in every state of a run of such steps. -/
theorem throughout_of_step {P : σ → ε → Prop} (hstart : Inv s)
    (hkeep : ∀ s e s', Inv s → P s e → step s e = some s' → Inv s')
    (hsteps : EachStep step P s steps) : Throughout step Inv s steps := by
  intro before after s' heq hrun
  have hbefore : EachStep step P s before := EachStep.of_append (heq ▸ hsteps)
  clear heq
  induction before using List.reverseRecOn generalizing s' with
  | nil =>
    cases hrun
    exact hstart
  | append_singleton before e ih =>
    obtain ⟨mid, hrun, hstep⟩ := runFrom_concat_eq_some.1 hrun
    exact hkeep mid e s' (ih mid hrun hbefore.of_append) (hbefore before e [] mid rfl hrun) hstep

theorem throughout_of_reached (hstart : Inv s)
    (hkeep : ∀ before e after mid next, steps = before ++ e :: after →
      runFrom step s before = some mid → step mid e = some next → Inv mid → Inv next) :
    Throughout step Inv s steps := by
  have hsteps : EachStep step (fun mid e => ∀ next, step mid e = some next → Inv mid → Inv next) s
      steps := by
    intro before e after mid heq hrun next hnext hmid
    exact hkeep before e after mid next heq hrun hnext hmid
  exact throughout_of_step hstart (fun mid e next hmid hkept hnext => hkept next hnext hmid) hsteps

/-- **A step condition that is exact.** Where a step keeps the invariant exactly when `P` admits it,
the invariant holds throughout a run exactly when `P` admits every step. -/
theorem throughout_iff_eachStep {P : σ → ε → Prop} (hstart : Inv s)
    (hstep : ∀ s e s', Inv s → step s e = some s' → (Inv s' ↔ P s e))
    (hrun : runFrom step s steps = some s') :
    Throughout step Inv s steps ↔ EachStep step P s steps := by
  constructor
  · intro h before e after mid heq hbefore
    subst heq
    rw [runFrom_append, hbefore, Option.bind_some, runFrom_cons] at hrun
    obtain ⟨next, hnext, -⟩ := Option.bind_eq_some_iff.1 hrun
    refine (hstep mid e next (h before (e :: after) mid rfl hbefore) hnext).1 ?_
    exact h (before ++ [e]) after next (by simp) (runFrom_concat_eq_some.2 ⟨mid, hbefore, hnext⟩)
  · intro h
    exact throughout_of_step hstart
      (fun mid e next hmid he hnext => (hstep mid e next hmid hnext).2 he) h

/-- What holds of every state reached, and what is admitted there, says something about each step. -/
theorem Throughout.eachStep {P Q : σ → ε → Prop} (h : Throughout step Inv s steps)
    (hsteps : EachStep step P s steps) (hnext : ∀ s e, Inv s → P s e → Q s e) :
    EachStep step Q s steps :=
  fun before e after s' heq hrun =>
    hnext s' e (h before (e :: after) s' heq hrun) (hsteps before e after s' heq hrun)

theorem Throughout.imp {P Q : σ → Prop} (h : Throughout step P s steps) (himp : ∀ s, P s → Q s) :
    Throughout step Q s steps :=
  fun before after s' heq hrun => himp s' (h before after s' heq hrun)

theorem Throughout.final {P : σ → Prop} (h : Throughout step P s steps)
    (hrun : runFrom step s steps = some s') : P s' :=
  h steps [] s' (List.append_nil _).symm hrun

end AppCore
