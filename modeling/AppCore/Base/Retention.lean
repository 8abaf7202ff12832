import Mathlib

/-!
# The longest suffix that fits

A bounded history drops its oldest items until the rest fits, and never its last item.

* `retained_suffix`, `suffix_retained` — what is kept is a suffix, and no longer one fits.
-/

namespace AppCore

variable {α : Type} {fits : List α → Bool} {xs ys : List α} {x : α}

/-- Drops the first items until the rest fits or has one item. -/
def retained (fits : List α → Bool) : List α → List α
  | [] => []
  | [x] => [x]
  | x :: y :: rest =>
    if fits (x :: y :: rest) then x :: y :: rest else retained fits (y :: rest)

@[simp] theorem retained_nil (fits : List α → Bool) : retained fits [] = [] := rfl

theorem retained_of_fits (h : fits xs = true) : retained fits xs = xs := by
  unfold retained
  split
  · rfl
  · rfl
  · rw [if_pos h]

theorem retained_congr {other : List α → Bool} (h : ∀ ys, ys <:+ xs → fits ys = other ys) :
    retained fits xs = retained other xs := by
  fun_induction retained fits xs with
  | case1 => rfl
  | case2 x => rfl
  | case3 x y rest hfits =>
    rw [h _ List.suffix_rfl] at hfits
    exact (retained_of_fits hfits).symm
  | case4 x y rest hbad ih =>
    rw [h _ List.suffix_rfl] at hbad
    rw [ih fun ys hys => h ys (hys.trans (List.suffix_cons x _)), retained.eq_def other (x :: _)]
    simp only [hbad]
    rfl

theorem retained_suffix (fits : List α → Bool) (xs : List α) : retained fits xs <:+ xs := by
  fun_induction retained fits xs with
  | case1 => exact List.suffix_rfl
  | case2 x => exact List.suffix_rfl
  | case3 x y rest _ => exact List.suffix_rfl
  | case4 x y rest _ ih => exact ih.trans (List.suffix_cons x (y :: rest))

theorem retained_ne_nil (fits : List α → Bool) (h : xs ≠ []) : retained fits xs ≠ [] := by
  fun_induction retained fits xs with
  | case1 => exact h
  | case2 x => exact h
  | case3 x y rest _ => exact h
  | case4 x y rest _ ih => exact ih (List.cons_ne_nil y rest)

theorem fits_or_length_le (fits : List α → Bool) (xs : List α) :
    fits (retained fits xs) = true ∨ (retained fits xs).length ≤ 1 := by
  fun_induction retained fits xs with
  | case1 => exact .inr (by simp)
  | case2 x => exact .inr (by simp)
  | case3 x y rest hfits => exact .inl hfits
  | case4 x y rest _ ih => exact ih

/-- No longer suffix fits. -/
theorem suffix_retained (hys : ys <:+ xs) (hfits : fits ys = true) :
    ys <:+ retained fits xs := by
  fun_induction retained fits xs with
  | case1 => exact hys
  | case2 x => exact hys
  | case3 x y rest _ => exact hys
  | case4 x y rest hbad ih =>
    obtain heq | htail := List.suffix_cons_iff.1 hys
    · rw [heq] at hfits
      exact absurd hfits hbad
    · exact ih htail

theorem retained_retained (fits : List α → Bool) (xs : List α) :
    retained fits (retained fits xs) = retained fits xs := by
  obtain hfits | hle := fits_or_length_le fits xs
  · exact retained_of_fits hfits
  · cases h : retained fits xs with
    | nil => rfl
    | cons x rest =>
      rw [h] at hle
      obtain rfl : rest = [] := List.length_eq_zero_iff.1 (by simpa using hle)
      rfl

theorem retained_append (hne : ys ≠ [])
    (h : ∀ zs, zs ≠ [] → zs <:+ xs → fits (zs ++ ys) = false) :
    retained fits (xs ++ ys) = retained fits ys := by
  induction xs with
  | nil => rfl
  | cons x xs ih =>
    have hrest := ih fun zs hzs hsuffix => h zs hzs (hsuffix.trans (List.suffix_cons x xs))
    have hbad := h (x :: xs) (List.cons_ne_nil x xs) List.suffix_rfl
    rw [← hrest]
    cases hxs : xs ++ ys with
    | nil => exact absurd (List.append_eq_nil_iff.1 hxs).2 hne
    | cons y rest =>
      rw [List.cons_append, hxs] at hbad
      rw [List.cons_append, hxs, retained, if_neg (by simp [hbad])]

/-- **Dropping after each append** keeps what dropping once keeps. -/
theorem retained_concat
    (hmono : ∀ ys x, ys ≠ [] → fits (ys ++ [x]) = true → fits ys = true) (xs : List α) (x : α) :
    retained fits (retained fits xs ++ [x]) = retained fits (xs ++ [x]) := by
  obtain ⟨dropped, hsplit⟩ := retained_suffix fits xs
  have hdropped : ∀ zs, zs ≠ [] → zs <:+ dropped →
      fits (zs ++ (retained fits xs ++ [x])) = false := by
    intro zs hzs hsuffix
    rw [Bool.eq_false_iff]
    intro hfits
    rw [← List.append_assoc] at hfits
    have hne : zs ++ retained fits xs ≠ [] := by simp [hzs]
    have hle : zs ++ retained fits xs <:+ xs := by
      obtain ⟨first, hfirst⟩ := hsuffix
      exact ⟨first, by rw [← List.append_assoc, hfirst, hsplit]⟩
    have hlonger := (suffix_retained hle (hmono _ _ hne hfits)).length_le
    have hpos := List.length_pos_of_ne_nil hzs
    rw [List.length_append] at hlonger
    omega
  have h := retained_append (by simp) hdropped
  rw [← List.append_assoc, hsplit] at h
  exact h.symm

/-- What is kept, described without the order of the drops. -/
theorem retained_spec (fits : List α → Bool) (xs : List α) :
    (retained fits xs ≠ [] ∧ fits (retained fits xs) = true ∧
      ∀ ys, ys <:+ xs → fits ys = true → ys.length ≤ (retained fits xs).length) ∨
    (retained fits xs = xs.getLast?.toList ∧ ∀ ys, ys <:+ xs → ys ≠ [] → fits ys = false) := by
  by_cases hexists : ∃ ys, ys <:+ xs ∧ ys ≠ [] ∧ fits ys = true
  · left
    obtain ⟨ys, hsuffix, hne, hfits⟩ := hexists
    have hys := suffix_retained hsuffix hfits
    have hpos := List.length_pos_of_ne_nil hne
    have hlength := hys.length_le
    refine ⟨List.ne_nil_of_length_pos (by omega), ?_, fun zs hzs hzfits =>
      (suffix_retained hzs hzfits).length_le⟩
    obtain h | hle := fits_or_length_le fits xs
    · exact h
    · have heq : ys = retained fits xs := hys.eq_of_length (by omega)
      rw [← heq]
      exact hfits
  · right
    have hnone (ys : List α) (hsuffix : ys <:+ xs) (hne : ys ≠ []) : fits ys = false := by
      rw [Bool.eq_false_iff]
      exact fun hfits => hexists ⟨ys, hsuffix, hne, hfits⟩
    refine ⟨?_, hnone⟩
    by_cases hxs : xs = []
    · rw [hxs]
      rfl
    · have hkept := retained_ne_nil fits hxs
      obtain hfits | hle := fits_or_length_le fits xs
      · rw [hnone _ (retained_suffix fits xs) hkept] at hfits
        cases hfits
      · have hpos := List.length_pos_of_ne_nil hkept
        obtain ⟨last, hlast⟩ := List.length_eq_one_iff.1 (show (retained fits xs).length = 1 by omega)
        obtain ⟨before, hbefore⟩ := retained_suffix fits xs
        rw [hlast] at hbefore ⊢
        simp [← hbefore]

end AppCore
