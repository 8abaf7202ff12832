import Mathlib.Data.List.DropRight
import Mathlib.Data.List.Dedup
import Mathlib.Tactic.Common

/-!
# The last distinct items

A history in which an item may come back remembers the last `n` distinct items
(`history.dedup.rtake n`). It can be kept without the rest of the history: an item that is not
among them is added at the end, and the first is dropped when there are too many.

* `rtake_dedup_concat` — one more item.
-/

namespace AppCore

variable {α : Type} {l : List α} {n : ℕ}

theorem length_rtake_le (l : List α) (n : ℕ) : (l.rtake n).length ≤ n := by
  rw [List.rtake, List.length_drop]
  omega

/-- The end of a list stays when only items before it are removed. -/
theorem rtake_filter {p : α → Bool} (h : ∀ a ∈ l.rtake n, p a = true) :
    (l.filter p).rtake n = l.rtake n := by
  have hend : (l.rtake n).filter p = l.rtake n := List.filter_eq_self.2 h
  have hsplit : l.filter p = (l.take (l.length - n)).filter p ++ l.rtake n := by
    conv_lhs => rw [← List.take_append_drop (l.length - n) l, List.filter_append]
    exact congrArg _ hend
  rw [hsplit]
  by_cases hn : n ≤ l.length
  · have hlength : (l.rtake n).length = n := by
      rw [List.rtake, List.length_drop]
      omega
    rw [List.rtake, List.length_append, hlength, Nat.add_sub_cancel_right, List.drop_left']
    rfl
  · have hnone : l.length - n = 0 := by omega
    rw [List.rtake, List.rtake, hnone, List.take_zero, List.filter_nil, List.nil_append,
      List.drop_zero, hnone, List.drop_zero]

theorem rtake_rtake_concat (l : List α) (x : α) (n : ℕ) :
    (l.rtake n ++ [x]).rtake n = (l ++ [x]).rtake n := by
  cases n with
  | zero => simp
  | succ n =>
    rw [List.rtake_concat_succ, List.rtake_concat_succ]
    congr 1
    simp only [List.rtake, List.length_drop, List.drop_drop]
    congr 1
    omega

variable [DecidableEq α]

theorem dedup_concat (l : List α) (x : α) :
    (l ++ [x]).dedup = l.dedup.filter (· ≠ x) ++ [x] := by
  induction l with
  | nil => rfl
  | cons a l ih =>
    by_cases hax : a = x
    · subst hax
      by_cases hmem : a ∈ l
      · simp [hmem, ih]
      · simp [hmem, ih]
    · by_cases hmem : a ∈ l
      · simp [hmem, ih]
      · simp [hmem, hax, ih]

/-- The last distinct items, after one that is not among them. -/
theorem rtake_dedup_concat {x : α} (h : x ∉ l.dedup.rtake n) :
    (l ++ [x]).dedup.rtake n = (l.dedup.rtake n ++ [x]).rtake n := by
  have hkeep : (l.dedup.filter (· ≠ x)).rtake n = l.dedup.rtake n := by
    refine rtake_filter fun a ha => ?_
    rw [decide_eq_true_eq]
    rintro rfl
    exact h ha
  rw [dedup_concat, ← rtake_rtake_concat, hkeep]

end AppCore
