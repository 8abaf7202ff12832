import Mathlib.Order.Basic

/-!
# Selection

The greatest element of a list for a comparator, where the last of several equal ones is kept, as
`Iterator::max_by` does. What is selected up to the comparator depends on the elements of the list
only, not on their order or on how often they occur.
-/

namespace AppCore

variable {α : Type} {cmp : α → α → Ordering}

def maxBy (cmp : α → α → Ordering) : List α → Option α
  | [] => none
  | a :: rest => some (rest.foldl (fun best x => if cmp best x = .gt then best else x) a)

theorem maxBy_eq_none {l : List α} : maxBy cmp l = none ↔ l = [] := by
  cases l with
  | nil => simp [maxBy]
  | cons a rest => simp [maxBy]

theorem keep_spec [Std.TransCmp cmp] (best x : α) :
    ((if cmp best x = .gt then best else x) = best ∨ (if cmp best x = .gt then best else x) = x) ∧
      (cmp best (if cmp best x = .gt then best else x)).isLE ∧
      (cmp x (if cmp best x = .gt then best else x)).isLE := by
  by_cases h : cmp best x = .gt
  · have hx : cmp x best = .lt := Std.OrientedCmp.lt_of_gt h
    simp [h, hx, Std.ReflCmp.compare_self]
  · have hbest : (cmp best x).isLE := Ordering.isLE_iff_ne_gt.2 h
    simp [h, hbest, Std.ReflCmp.compare_self]

theorem foldl_keep [Std.TransCmp cmp] (l : List α) (a : α) :
    let m := l.foldl (fun best x => if cmp best x = .gt then best else x) a
    (m = a ∨ m ∈ l) ∧ (cmp a m).isLE ∧ ∀ x ∈ l, (cmp x m).isLE := by
  induction l generalizing a with
  | nil => simp [Std.ReflCmp.compare_self]
  | cons x rest ih =>
    obtain ⟨hkept, ha, hx⟩ := @keep_spec _ cmp _ a x
    obtain ⟨hmem, hle, hrest⟩ := ih (if cmp a x = .gt then a else x)
    refine ⟨?_, Std.TransCmp.isLE_trans ha hle, ?_⟩
    · rcases hmem with hmem | hmem
      · rcases hkept with hkept | hkept
        · exact Or.inl (hmem.trans hkept)
        · exact Or.inr (List.mem_cons.2 (Or.inl (hmem.trans hkept)))
      · exact Or.inr (List.mem_cons_of_mem _ hmem)
    · intro y hy
      rcases List.mem_cons.1 hy with hy | hy
      · subst hy
        exact Std.TransCmp.isLE_trans hx hle
      · exact hrest y hy

theorem maxBy_spec [Std.TransCmp cmp] {l : List α} {m : α} (h : maxBy cmp l = some m) :
    m ∈ l ∧ ∀ x ∈ l, (cmp x m).isLE := by
  cases l with
  | nil => cases h
  | cons a rest =>
    obtain ⟨hmem, ha, hrest⟩ := @foldl_keep _ cmp _ rest a
    rw [Option.some.inj h] at hmem ha hrest
    constructor
    · exact List.mem_cons.2 hmem
    · intro x hx
      rcases List.mem_cons.1 hx with hx | hx
      · exact hx ▸ ha
      · exact hrest x hx

/-- Where equality for the comparator fixes what is read off, `maxBy` reads it off whichever of the
greatest elements it kept. -/
theorem map_maxBy_eq_some_iff [Std.TransCmp cmp] {β : Type} {f : α → β}
    (hf : ∀ x y, cmp x y = .eq → f x = f y) {l : List α} {b : β} :
    (maxBy cmp l).map f = some b ↔ ∃ m ∈ l, f m = b ∧ ∀ x ∈ l, (cmp x m).isLE := by
  constructor
  · intro h
    obtain ⟨m, hm, hb⟩ := Option.map_eq_some_iff.1 h
    obtain ⟨hmem, hmax⟩ := maxBy_spec hm
    exact ⟨m, hmem, hb, hmax⟩
  · intro h
    obtain ⟨m, hmem, hb, hmax⟩ := h
    cases hn : maxBy cmp l with
    | none =>
      rw [maxBy_eq_none.1 hn] at hmem
      cases hmem
    | some n =>
      obtain ⟨hn, hnmax⟩ := maxBy_spec hn
      have heq : cmp m n = .eq := Std.OrientedCmp.isLE_antisymm (hnmax m hmem) (hmax n hn)
      rw [Option.map_some, ← hf m n heq, hb]

end AppCore
