import Mathlib

/-!
# Programs that can stop

A program over states `σ` that may fail with `ε`: its result, and the states it passes through,
one after each of its steps. A program that is stopped leaves the state it started in or one of
those.

`wp` is the weakest precondition with a crash condition: every state passed through meets the
crash condition, and the result and the last state meet the postcondition. `Keeps` is the case
of an invariant. Each way of building programs has its rule.
-/

namespace AppCore

/-- A program: its result and the states after each of its steps. -/
def Prog (σ ε α : Type) := σ → Except ε α × List σ

namespace Prog

variable {σ ε α β : Type}

/-- The state a program ends in. -/
def final (m : Prog σ ε α) (s : σ) : σ := (m s).2.getLastD s

def result (m : Prog σ ε α) (s : σ) : Except ε α := (m s).1

/-- The states in which a program can be stopped. -/
def stops (m : Prog σ ε α) (s : σ) : List σ := s :: (m s).2

def ret (a : α) : Prog σ ε α := fun _ => (.ok a, [])

def andThen (m : Prog σ ε α) (f : α → Prog σ ε β) : Prog σ ε β := fun s =>
  match m s with
  | (.error e, visited) => (.error e, visited)
  | (.ok a, visited) =>
    let (r, more) := f a (visited.getLastD s)
    (r, visited ++ more)

instance : Monad (Prog σ ε) where
  pure := ret
  bind := andThen

def fail (e : ε) : Prog σ ε α := fun _ => (.error e, [])

/-- A look at the state. -/
def read (f : σ → Except ε α) : Prog σ ε α := fun s => (f s, [])

def step (f : σ → Except ε σ) : Prog σ ε Unit := fun s =>
  match f s with
  | .error e => (.error e, [])
  | .ok t => (.ok (), [t])

/-- A program whose failure is not passed on. -/
def attempt (m : Prog σ ε α) : Prog σ ε (Except ε α) := fun s =>
  ((.ok (m s).1 : Except ε (Except ε α)), (m s).2)

/-- A program whose failure is reported as another. -/
def mapError {δ : Type} (f : ε → δ) (m : Prog σ ε α) : Prog σ δ α := fun s =>
  ((m s).1.mapError f, (m s).2)

/-- A program for each member of a list. -/
def each (f : α → Prog σ ε Unit) : List α → Prog σ ε Unit
  | [] => ret ()
  | a :: as => andThen (f a) fun _ => each f as

/-- A program for each member of a list, with their results. -/
def collect (f : α → Prog σ ε β) : List α → Prog σ ε (List β)
  | [] => ret []
  | a :: as => andThen (f a) fun b => andThen (collect f as) fun bs => ret (b :: bs)

/-! ## Laws -/

theorem andThen_ret (m : Prog σ ε α) : m.andThen ret = m := by
  funext s
  unfold andThen ret
  rcases m s with ⟨e | a, visited⟩
  · rfl
  · exact congrArg (Prod.mk _) (List.append_nil visited)

theorem andThen_assoc {γ : Type} (m : Prog σ ε α) (f : α → Prog σ ε β) (g : β → Prog σ ε γ) :
    (m.andThen f).andThen g = m.andThen fun a => (f a).andThen g := by
  funext s
  unfold andThen
  rcases m s with ⟨e | a, visited⟩
  · rfl
  · dsimp only
    rcases f a (visited.getLastD s) with ⟨e | b, more⟩
    · rfl
    · simp only [List.getLastD_eq_getLast?, List.getLast?_append, List.append_assoc]
      cases more.getLast? <;> rfl

instance : LawfulMonad (Prog σ ε) :=
  LawfulMonad.mk' _ andThen_ret (fun _ _ => rfl) andThen_assoc

theorem each_cons (f : α → Prog σ ε Unit) (a : α) (as : List α) :
    each f (a :: as) = f a >>= fun _ => each f as := rfl

/-- A failure in the middle is not passed on either. -/
theorem attempt_bind (m : Prog σ ε α) (f : α → Prog σ ε β) :
    (m >>= f).attempt = m.attempt >>= fun r => match r with
      | .ok a => (f a).attempt
      | .error e => pure (.error e) := by
  funext s
  change (m.andThen f).attempt s = m.attempt.andThen _ s
  unfold attempt andThen
  dsimp only
  rcases m s with ⟨e | a, visited⟩
  · exact congrArg (Prod.mk _) (List.append_nil visited).symm
  · rfl

/-! ## Weakest preconditions -/

/-- Every state passed through meets `C`, and the end meets `Q`. -/
def wp (m : Prog σ ε α) (C : σ → Prop) (Q : Except ε α → σ → Prop) (s : σ) : Prop :=
  (∀ t ∈ (m s).2, C t) ∧ Q (m.result s) (m.final s)

theorem wp_mono {m : Prog σ ε α} {C C' : σ → Prop} {Q Q' : Except ε α → σ → Prop} {s : σ}
    (h : m.wp C Q s) (hC : ∀ t, C t → C' t) (hQ : ∀ r t, Q r t → Q' r t) : m.wp C' Q' s :=
  ⟨fun t ht => hC t (h.1 t ht), hQ _ _ h.2⟩

theorem final_mem_stops (m : Prog σ ε α) (s : σ) : m.final s ∈ m.stops s :=
  List.getLastD_mem_cons

/-- A stop is the start or one of the states passed through. -/
theorem of_mem_stops {m : Prog σ ε α} {C : σ → Prop} {Q : Except ε α → σ → Prop} {s t : σ}
    (h : m.wp C Q s) (hs : C s) (ht : t ∈ m.stops s) : C t := by
  rcases List.mem_cons.1 ht with rfl | ht
  · exact hs
  · exact h.1 t ht

theorem wp_and {m : Prog σ ε α} {C C' : σ → Prop} {Q Q' : Except ε α → σ → Prop} {s : σ}
    (h : m.wp C Q s) (h' : m.wp C' Q' s) :
    m.wp (fun t => C t ∧ C' t) (fun r t => Q r t ∧ Q' r t) s :=
  ⟨fun t ht => ⟨h.1 t ht, h'.1 t ht⟩, h.2, h'.2⟩

@[simp] theorem wp_ret {a : α} {C : σ → Prop} {Q : Except ε α → σ → Prop} {s : σ} :
    (ret a).wp C Q s ↔ Q (.ok a) s := by
  simp [wp, ret, result, final]

@[simp] theorem wp_pure {a : α} {C : σ → Prop} {Q : Except ε α → σ → Prop} {s : σ} :
    wp (pure a : Prog σ ε α) C Q s ↔ Q (.ok a) s :=
  wp_ret

@[simp] theorem wp_fail {e : ε} {C : σ → Prop} {Q : Except ε α → σ → Prop} {s : σ} :
    (fail e : Prog σ ε α).wp C Q s ↔ Q (.error e) s := by
  simp [wp, fail, result, final]

@[simp] theorem wp_read {f : σ → Except ε α} {C : σ → Prop} {Q : Except ε α → σ → Prop} {s : σ} :
    (read f).wp C Q s ↔ Q (f s) s := by
  simp [wp, read, result, final]

theorem wp_step {f : σ → Except ε σ} {C : σ → Prop} {Q : Except ε Unit → σ → Prop} {s : σ} :
    (step f).wp C Q s ↔
      (∀ t, f s = .ok t → C t ∧ Q (.ok ()) t) ∧ ∀ e, f s = .error e → Q (.error e) s := by
  cases h : f s with
  | error e => simp [wp, step, result, final, h]
  | ok t => simp [wp, step, result, final, h]

theorem wp_step_mapError {δ : Type} {f : σ → Except δ σ} {g : δ → ε} {C : σ → Prop}
    {Q : Except ε Unit → σ → Prop} {s : σ} (hok : ∀ t, f s = .ok t → C t ∧ Q (.ok ()) t)
    (herror : ∀ e, f s = .error e → Q (.error (g e)) s) :
    (step fun s => (f s).mapError g).wp C Q s := by
  rw [wp_step]
  cases h : f s with
  | error e => simpa [Except.mapError] using herror e h
  | ok t => simpa [Except.mapError] using hok t h

theorem wp_andThen {m : Prog σ ε α} {f : α → Prog σ ε β} {C : σ → Prop}
    {Q : Except ε β → σ → Prop} {s : σ} :
    (m.andThen f).wp C Q s ↔
      m.wp C (fun r t => match r with
        | .ok a => (f a).wp C Q t
        | .error e => Q (.error e) t) s := by
  unfold wp result final andThen
  rcases hm : m s with ⟨r | a, visited⟩
  · rfl
  · simp only [List.mem_append, List.getLastD_eq_getLast?, List.getLast?_append]
    constructor
    · rintro ⟨hC, hQ⟩
      refine ⟨fun t ht => hC t (Or.inl ht), fun t ht => hC t (Or.inr ht), ?_⟩
      cases hlast : (f a (visited.getLast?.getD s)).2.getLast? <;> simpa [hlast] using hQ
    · rintro ⟨hC, hmore, hQ⟩
      refine ⟨fun t ht => ht.elim (hC t) (hmore t), ?_⟩
      cases hlast : (f a (visited.getLast?.getD s)).2.getLast? <;> simpa [hlast] using hQ

@[simp] theorem wp_bind {m : Prog σ ε α} {f : α → Prog σ ε β} {C : σ → Prop}
    {Q : Except ε β → σ → Prop} {s : σ} :
    wp (m >>= f) C Q s ↔
      m.wp C (fun r t => match r with
        | .ok a => (f a).wp C Q t
        | .error e => Q (.error e) t) s :=
  wp_andThen

theorem wp_read_bind {f : σ → Except ε α} {g : α → Prog σ ε β} {C : σ → Prop}
    {Q : Except ε β → σ → Prop} {s : σ} :
    wp (read f >>= g) C Q s ↔
      (∀ a, f s = .ok a → (g a).wp C Q s) ∧ ∀ e, f s = .error e → Q (.error e) s := by
  rw [wp_bind, wp_read]
  cases f s with
  | error e => simp
  | ok a => simp

@[simp] theorem wp_attempt {m : Prog σ ε α} {C : σ → Prop}
    {Q : Except ε (Except ε α) → σ → Prop} {s : σ} :
    m.attempt.wp C Q s ↔ m.wp C (fun r t => Q (.ok r) t) s := by
  simp [wp, attempt, result, final]

theorem wp_mapError {δ : Type} {f : ε → δ} {m : Prog σ ε α} {C : σ → Prop}
    {Q : Except δ α → σ → Prop} {s : σ} :
    (m.mapError f).wp C Q s ↔ m.wp C (fun r t => Q (r.mapError f) t) s :=
  Iff.rfl

theorem result_bind_read {m : Prog σ ε α} {f : α → σ → Except ε β} {s : σ} :
    result (m >>= fun a => read (f a)) s = m.result s >>= fun a => f a (m.final s) := by
  change (m.andThen _ s).1 = _
  unfold result final andThen read
  rcases m s with ⟨e | a, visited⟩
  · rfl
  · rfl

theorem final_bind_read {m : Prog σ ε α} {f : α → σ → Except ε β} {s : σ} :
    final (m >>= fun a => read (f a)) s = m.final s := by
  change (m.andThen _ s).2.getLastD s = _
  unfold final andThen read
  rcases m s with ⟨e | a, visited⟩
  · rfl
  · simp

/-! ## Invariants -/

/-- An invariant that every step keeps, whatever the result. -/
def Keeps (I : σ → Prop) (m : Prog σ ε α) : Prop := ∀ s, I s → m.wp I (fun _ t => I t) s

theorem Keeps.stops {I : σ → Prop} {m : Prog σ ε α} (h : Keeps I m) {s t : σ} (hs : I s)
    (ht : t ∈ m.stops s) : I t :=
  of_mem_stops (h s hs) hs ht

theorem Keeps.final {I : σ → Prop} {m : Prog σ ε α} (h : Keeps I m) {s : σ} (hs : I s) :
    I (m.final s) :=
  (h s hs).2

theorem keeps_pure {I : σ → Prop} (a : α) : Keeps I (pure a : Prog σ ε α) := by
  intro s hs
  simpa using hs

theorem keeps_fail {I : σ → Prop} (e : ε) : Keeps I (fail e : Prog σ ε α) := by
  intro s hs
  simpa using hs

theorem keeps_read {I : σ → Prop} (f : σ → Except ε α) : Keeps I (read f) := by
  intro s hs
  simpa using hs

theorem keeps_step {I : σ → Prop} {f : σ → Except ε σ} (h : ∀ s t, I s → f s = .ok t → I t) :
    Keeps I (step f) := by
  intro s hs
  rw [wp_step]
  exact ⟨fun t ht => ⟨h s t hs ht, h s t hs ht⟩, fun _ _ => hs⟩

theorem keeps_bind {I : σ → Prop} {m : Prog σ ε α} {f : α → Prog σ ε β} (hm : Keeps I m)
    (hf : ∀ a, Keeps I (f a)) : Keeps I (m >>= f) := by
  intro s hs
  rw [wp_bind]
  refine wp_mono (hm s hs) (fun _ h => h) ?_
  rintro (e | a) t ht
  · exact ht
  · exact hf a t ht

theorem keeps_read_bind {I : σ → Prop} {f : σ → Except ε α} {g : α → Prog σ ε β}
    (h : ∀ s a, f s = .ok a → Keeps I (g a)) : Keeps I (read f >>= g) := by
  intro s hs
  rw [wp_read_bind]
  exact ⟨fun a ha => h s a ha s hs, fun _ _ => hs⟩

theorem keeps_attempt {I : σ → Prop} {m : Prog σ ε α} (hm : Keeps I m) : Keeps I m.attempt := by
  intro s hs
  rw [wp_attempt]
  exact hm s hs

theorem keeps_each {I : σ → Prop} {f : α → Prog σ ε Unit} (as : List α)
    (h : ∀ a ∈ as, Keeps I (f a)) : Keeps I (each f as) := by
  induction as with
  | nil => exact keeps_pure ()
  | cons a as ih =>
    exact keeps_bind (h a List.mem_cons_self) fun _ =>
      ih fun b hb => h b (List.mem_cons_of_mem _ hb)

theorem keeps_collect {I : σ → Prop} {f : α → Prog σ ε β} (as : List α)
    (h : ∀ a ∈ as, Keeps I (f a)) : Keeps I (collect f as) := by
  induction as with
  | nil => exact keeps_pure []
  | cons a as ih =>
    exact keeps_bind (h a List.mem_cons_self) fun _ =>
      keeps_bind (ih fun b hb => h b (List.mem_cons_of_mem _ hb)) fun _ => keeps_pure _

end Prog

theorem ok_of_any {ε α : Type} {x : Except ε α} {p : α → Bool} (h : x.toOption.any p = true) :
    ∃ a, x = .ok a ∧ p a = true := by
  cases x with
  | error e => cases h
  | ok a => exact ⟨a, rfl, h⟩

theorem steps_of_take {σ ε α : Type} {run : List α → Except ε σ} {P : σ → α → Prop}
    [∀ s a, Decidable (P s a)] {steps : List α}
    (h : ∀ i : Fin steps.length,
      (run (steps.take i)).toOption.all (fun s => P s steps[i]) = true)
    (before : List α) (step : α) (after : List α) (s : σ) (heq : steps = before ++ step :: after)
    (hrun : run before = .ok s) : P s step := by
  subst heq
  have hlt : before.length < (before ++ step :: after).length := by simp
  have hstep := h ⟨before.length, hlt⟩
  have htake : (before ++ step :: after).take before.length = before := List.take_left
  have hget : (before ++ step :: after)[before.length] = step := by simp
  simp only [htake, hrun, Fin.getElem_fin, hget] at hstep
  exact of_decide_eq_true hstep

end AppCore
