import AppCore.Base.Prog

/-!
# What the steps of a program do

A relation between the states before and after every step of a program (`Moves`), with a rule for each
way of building programs, and what follows of an invariant (`Moves.keeps`) and of the last state
(`Moves.final`).

A program that is watched carries a value along, which is updated at every step (`watched`). It is
built as the program is (`watched_bind` and its like), so that the rules of programs are rules for it.
-/

namespace AppCore.Prog

variable {σ ε α β γ : Type} {R : σ → σ → Prop}

/-- Every step of a program is a move of `R`. -/
def Moves (R : σ → σ → Prop) (m : Prog σ ε α) : Prop := ∀ s, (m.stops s).IsChain R

theorem moves_pure (a : α) : Moves R (pure a : Prog σ ε α) := fun s => List.IsChain.singleton s

theorem moves_fail (e : ε) : Moves R (fail e : Prog σ ε α) := fun s => List.IsChain.singleton s

theorem moves_read (f : σ → Except ε α) : Moves R (read f) := fun s => List.IsChain.singleton s

theorem moves_step {f : σ → Except ε σ} (h : ∀ s t, f s = .ok t → R s t) : Moves R (step f) := by
  intro s
  unfold stops step
  cases hf : f s with
  | error e => exact List.IsChain.singleton s
  | ok t => exact List.isChain_pair.2 (h s t hf)

theorem step_cases {m : Prog σ ε Unit} {f : σ → Except ε σ} (hm : m = step f) (s : σ) :
    (∃ t, f s = .ok t ∧ m.result s = .ok () ∧ m.final s = t) ∨
      ∃ e, f s = .error e ∧ m.result s = .error e ∧ m.final s = s := by
  rw [hm]
  unfold result final step
  cases hf : f s with
  | error e => exact Or.inr ⟨e, rfl, rfl, rfl⟩
  | ok t => exact Or.inl ⟨t, rfl, rfl, rfl⟩

theorem moves_attempt {m : Prog σ ε α} (h : Moves R m) : Moves R m.attempt := h

theorem getLast?_stops (m : Prog σ ε α) (s : σ) : (m.stops s).getLast? = some (m.final s) := by
  unfold stops final
  rw [List.getLast?_cons, List.getLastD_eq_getLast?]

theorem stops_bind (m : Prog σ ε α) (f : α → Prog σ ε β) (s : σ) :
    (m >>= f).stops s = m.stops s ++ match m.result s with
      | .ok a => (f a (m.final s)).2
      | .error _ => [] := by
  change (andThen m f).stops s = _
  unfold stops andThen final result
  rcases m s with ⟨e | a, visited⟩
  · exact (List.append_nil _).symm
  · rfl

theorem moves_bind {m : Prog σ ε α} {f : α → Prog σ ε β} (hm : Moves R m)
    (hf : ∀ a, Moves R (f a)) : Moves R (m >>= f) := by
  intro s
  rw [stops_bind]
  cases hresult : m.result s with
  | error e =>
    rw [List.append_nil]
    exact hm s
  | ok a =>
    have hmore := hf a (m.final s)
    unfold stops at hmore
    refine List.isChain_append.2 ⟨hm s, hmore.tail, ?_⟩
    intro x hx y hy
    rw [getLast?_stops, Option.mem_some_iff] at hx
    subst hx
    exact hmore.rel_head? hy

theorem moves_read_bind {f : σ → Except ε α} {g : α → Prog σ ε β}
    (h : ∀ s a, f s = .ok a → Moves R (g a)) : Moves R (read f >>= g) := by
  intro s
  rw [stops_bind]
  unfold result
  cases hf : f s with
  | error e =>
    rw [show (read f s).1 = .error e from hf]
    exact List.IsChain.singleton s
  | ok a =>
    rw [show (read f s).1 = .ok a from hf]
    exact h s a hf s

theorem moves_each {f : α → Prog σ ε Unit} (as : List α) (h : ∀ a ∈ as, Moves R (f a)) :
    Moves R (each f as) := by
  induction as with
  | nil => exact moves_pure ()
  | cons a as ih =>
    exact moves_bind (h a List.mem_cons_self) fun _ =>
      ih fun b hb => h b (List.mem_cons_of_mem _ hb)

/-- An invariant that the moves keep holds in every state that is passed through. -/
theorem Moves.keeps {m : Prog σ ε α} {I : σ → Prop} (h : Moves R m)
    (hI : ∀ s t, I s → R s t → I t) : Keeps I m := by
  have hchain : ∀ (states : List σ) (s : σ), I s → (s :: states).IsChain R →
      ∀ t ∈ s :: states, I t := by
    intro states
    induction states with
    | nil =>
      intro s hs _ t ht
      rwa [List.mem_singleton.1 ht]
    | cons next states ih =>
      intro s hs hchain t ht
      obtain ⟨hmove, hrest⟩ := List.isChain_cons_cons.1 hchain
      rcases List.mem_cons.1 ht with rfl | hmem
      · exact hs
      · exact ih next (hI s next hs hmove) hrest t hmem
  intro s hs
  refine ⟨fun t ht => hchain _ s hs (h s) t (List.mem_cons_of_mem s ht), ?_⟩
  exact hchain _ s hs (h s) _ (List.mem_of_getLast? (getLast?_stops m s))

/-- The states before and after a program. -/
theorem Moves.final {m : Prog σ ε α} (h : Moves R m) (hrefl : ∀ s, R s s)
    (htrans : ∀ s t u, R s t → R t u → R s u) (s : σ) : R s (m.final s) :=
  (h.keeps (I := R s) fun t u hst htu => htrans s t u hst htu).final (hrefl s)

/-! ## Programs that are watched -/

/-- The states, each with the value after it. -/
def trail (f : σ → σ → γ → γ) : σ → γ → List σ → List (σ × γ)
  | _, _, [] => []
  | s, c, t :: states => (t, f s t c) :: trail f t (f s t c) states

/-- A program that carries a value along, which `f` updates at every step. -/
def watched (f : σ → σ → γ → γ) (m : Prog σ ε α) : Prog (σ × γ) ε α := fun p =>
  (m.result p.1, trail f p.1 p.2 (m p.1).2)

variable {f : σ → σ → γ → γ}

theorem trail_append (states more : List σ) (s : σ) (c : γ) :
    trail f s c (states ++ more) =
      trail f s c states ++ trail f ((trail f s c states).getLastD (s, c)).1
        ((trail f s c states).getLastD (s, c)).2 more := by
  induction states generalizing s c with
  | nil => rfl
  | cons t states ih =>
    rw [List.cons_append, trail, trail, ih, List.cons_append, List.getLastD_cons]

theorem fst_getLastD_trail (states : List σ) (s : σ) (c : γ) :
    ((trail f s c states).getLastD (s, c)).1 = states.getLastD s := by
  induction states generalizing s c with
  | nil => rfl
  | cons t states ih => rw [trail, List.getLastD_cons, List.getLastD_cons, ih]

theorem watched_read (g : σ → Except ε α) : watched f (read g) = read fun p => g p.1 := rfl

theorem watched_attempt (m : Prog σ ε α) : watched f m.attempt = (watched f m).attempt := rfl

theorem watched_step (g : σ → Except ε σ) :
    watched f (step g) = step fun p => (g p.1).map fun t => (t, f p.1 t p.2) := by
  funext p
  unfold watched result step
  dsimp only
  cases hg : g p.1 with
  | error e => rfl
  | ok t => rfl

theorem watched_bind (m : Prog σ ε α) (g : α → Prog σ ε β) :
    watched f (m >>= g) = watched f m >>= fun a => watched f (g a) := by
  funext p
  change watched f (andThen m g) p = andThen (watched f m) (fun a => watched f (g a)) p
  unfold watched andThen result
  dsimp only
  rcases hm : m p.1 with ⟨e | a, visited⟩
  · rfl
  · dsimp only
    rw [trail_append, fst_getLastD_trail]

theorem watched_each (g : α → Prog σ ε Unit) (as : List α) :
    watched f (each g as) = each (fun a => watched f (g a)) as := by
  induction as with
  | nil => rfl
  | cons a as ih =>
    change watched f (g a >>= fun _ => each g as) =
      watched f (g a) >>= fun _ => each (fun a => watched f (g a)) as
    rw [watched_bind, ih]

/-- A value that no move changes stays as it is. -/
theorem Moves.watched {m : Prog σ ε α} (h : Moves R m) (hf : ∀ s t c, R s t → f s t c = c) :
    Moves (fun p q => R p.1 q.1 ∧ q.2 = p.2) (watched f m) := by
  intro p
  have hchain : ∀ (states : List σ) (s : σ) (c : γ), (s :: states).IsChain R →
      ((s, c) :: trail f s c states).IsChain fun p q => R p.1 q.1 ∧ q.2 = p.2 := by
    intro states
    induction states with
    | nil => exact fun s c _ => List.IsChain.singleton (s, c)
    | cons t states ih =>
      intro s c hchain
      obtain ⟨hmove, hrest⟩ := List.isChain_cons_cons.1 hchain
      exact List.isChain_cons_cons.2 ⟨⟨hmove, hf s t c hmove⟩, ih t (f s t c) hrest⟩
  exact hchain _ p.1 p.2 (h p.1)

end AppCore.Prog
