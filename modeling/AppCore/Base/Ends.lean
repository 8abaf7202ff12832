import AppCore.Base.Prog

/-!
# Where a program ends

A program that is not stopped ends with one result in one state (`Ends`). There is a rule for each
way of building programs, so that a run is followed from call to call.
-/

namespace AppCore.Prog

variable {σ ε α β : Type} {s t u : σ}

/-- The program, started in `s`, ends in `t` with the result `r`. -/
def Ends (m : Prog σ ε α) (s : σ) (r : Except ε α) (t : σ) : Prop :=
  m.result s = r ∧ m.final s = t

theorem ends_iff_wp {m : Prog σ ε α} {r : Except ε α} :
    m.Ends s r t ↔ m.wp (fun _ => True) (fun r' t' => r' = r ∧ t' = t) s := by
  simp [Ends, wp]

theorem ends_pure (a : α) : (pure a : Prog σ ε α).Ends s (.ok a) s := ⟨rfl, rfl⟩

theorem ends_read {f : σ → Except ε α} {r : Except ε α} (h : f s = r) : (read f).Ends s r s :=
  ⟨h, rfl⟩

theorem ends_step {f : σ → Except ε σ} (h : f s = .ok t) : (step f).Ends s (.ok ()) t := by
  rw [ends_iff_wp, wp_step]
  simp [h]

theorem ends_attempt {m : Prog σ ε α} {r : Except ε α} (h : m.Ends s r t) :
    m.attempt.Ends s (.ok r) t := by
  obtain ⟨hresult, hfinal⟩ := h
  exact ⟨congrArg Except.ok hresult, hfinal⟩

theorem ends_bind {m : Prog σ ε α} {f : α → Prog σ ε β} {a : α} {r : Except ε β}
    (hm : m.Ends s (.ok a) t) (hf : (f a).Ends t r u) : (m >>= f).Ends s r u := by
  rw [ends_iff_wp] at hm hf ⊢
  rw [wp_bind]
  refine wp_mono hm (fun _ h => h) ?_
  intro r' t' h
  obtain ⟨hr, ht⟩ := h
  subst hr ht
  exact hf

theorem ends_bind_error {m : Prog σ ε α} {f : α → Prog σ ε β} {e : ε}
    (hm : m.Ends s (.error e) t) : (m >>= f).Ends s (.error e) t := by
  rw [ends_iff_wp] at hm ⊢
  rw [wp_bind]
  refine wp_mono hm (fun _ h => h) ?_
  intro r' t' h
  obtain ⟨hr, ht⟩ := h
  subst hr ht
  exact ⟨rfl, rfl⟩

theorem ends_each {f : α → Prog σ ε Unit} {as : List α} (h : ∀ a ∈ as, (f a).Ends s (.ok ()) s) :
    (each f as).Ends s (.ok ()) s := by
  induction as with
  | nil => exact ends_pure ()
  | cons a as ih =>
    rw [each_cons]
    apply ends_bind (h a List.mem_cons_self)
    exact ih fun b hb => h b (List.mem_cons_of_mem _ hb)

end AppCore.Prog
