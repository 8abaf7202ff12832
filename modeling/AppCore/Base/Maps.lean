import Mathlib

/-!
# Maps rebuilt from their entries

A document that stores a map lists its entries, and reading it inserts them one after another. A
log of values that carry their own keys is read the same way, and a later value replaces an earlier
one of its key (`indexBy`).
-/

namespace AppCore

variable {α β : Type} [Ord α] [Std.TransOrd α]

/-! ## Lookups -/

theorem size_modifyAll (map : Std.ExtTreeMap α β compare) (f : β → β) (keys : List α) :
    (keys.foldl (fun map k => map.modify k f) map).size = map.size := by
  induction keys generalizing map with
  | nil => rfl
  | cons k keys ih => rw [List.foldl_cons, ih, Std.ExtTreeMap.size_modify]

theorem nodup_keys_toList [Std.LawfulEqOrd α] (map : Std.ExtTreeMap α β compare) :
    (map.toList.map (·.1)).Nodup := by
  refine List.pairwise_map.2 (Std.ExtTreeMap.distinct_keys_toList.imp fun h heq => h ?_)
  exact Std.LawfulEqCmp.compare_eq_iff_eq.2 heq

/-- A map without its last key. -/
theorem keys_erase_last [Std.LawfulEqOrd α] (map : Std.ExtTreeMap α β compare) {front : List α}
    {k : α} (h : map.keys = front ++ [k]) : (map.erase k).keys = front := by
  have hirrefl : Std.Irrefl fun a b : α => compare a b = .lt :=
    ⟨fun a ha => by rw [Std.ReflOrd.compare_self] at ha; cases ha⟩
  have hantisymm : Std.Antisymm fun a b : α => compare a b = .lt :=
    ⟨fun a b hab hba => absurd (Std.TransCmp.lt_trans hab hba) (hirrefl.irrefl a)⟩
  have hordered := Std.ExtTreeMap.ordered_keys (t := map)
  have hnodup := Std.ExtTreeMap.nodup_keys (t := map)
  rw [h] at hordered hnodup
  refine Std.ExtTreeMap.ordered_keys.eq_of_mem_iff (List.pairwise_append.1 hordered).1 fun a => ?_
  have hmem : a ∈ map.keys ↔ a ∈ front ∨ a = k := by
    rw [h, List.mem_append, List.mem_singleton]
  have hlast : k ∉ front := fun hk =>
    (List.nodup_append.1 hnodup).2.2 k hk k List.mem_cons_self rfl
  rw [Std.ExtTreeMap.mem_keys, Std.ExtTreeMap.mem_erase, ← Std.ExtTreeMap.mem_keys, hmem, ne_eq,
    Std.LawfulEqCmp.compare_eq_iff_eq]
  constructor
  · intro ha
    exact ha.2.resolve_right fun heq => ha.1 heq.symm
  · intro ha
    exact ⟨fun heq => hlast (heq ▸ ha), Or.inl ha⟩

section

variable [Std.LawfulEqOrd α] [DecidableEq α] (map : Std.ExtTreeMap α β compare) (k a : α)

theorem lookup_insert (v : β) : (map.insert k v)[a]? = if k = a then some v else map[a]? := by
  rw [Std.ExtTreeMap.getElem?_insert]
  simp [Std.LawfulEqCmp.compare_eq_iff_eq]

theorem lookup_erase : (map.erase k)[a]? = if k = a then none else map[a]? := by
  rw [Std.ExtTreeMap.getElem?_erase]
  simp [Std.LawfulEqCmp.compare_eq_iff_eq]

theorem lookup_modify (f : β → β) :
    (map.modify k f)[a]? = if k = a then map[a]?.map f else map[a]? := by
  rw [Std.ExtTreeMap.getElem?_modify]
  by_cases h : k = a
  · simp [h]
  · simp [h]

theorem lookup_modifyAll (f : β → β) {keys : List α} (hkeys : keys.Nodup) :
    (keys.foldl (fun map k => map.modify k f) map)[a]? =
      if a ∈ keys then map[a]?.map f else map[a]? := by
  induction keys generalizing map with
  | nil => simp
  | cons k keys ih =>
    obtain ⟨hk, hkeys⟩ := List.nodup_cons.1 hkeys
    rw [List.foldl_cons, ih _ hkeys, lookup_modify]
    by_cases h : k = a
    · subst h
      simp [hk]
    · simp [h, Ne.symm h]

/-! ## Values that are replaced -/

theorem insert_of_lookup {v : β} (h : map[k]? = some v) : map.insert k v = map := by
  apply Std.ExtTreeMap.ext_getElem?
  intro a
  rw [lookup_insert]
  by_cases ha : k = a
  · rw [if_pos ha, ← ha, h]
  · rw [if_neg ha]

theorem insert_insert (v w : β) : (map.insert k v).insert k w = map.insert k w := by
  apply Std.ExtTreeMap.ext_getElem?
  intro a
  rw [lookup_insert, lookup_insert, lookup_insert]
  by_cases ha : k = a
  · rw [if_pos ha, if_pos ha]
  · rw [if_neg ha, if_neg ha, if_neg ha]

theorem toList_insert_perm (v : β) :
    (map.insert k v).toList.Perm ((k, v) :: map.toList.filter fun entry => entry.1 ≠ k) := by
  have hrest : (k, v) ∉ map.toList.filter fun entry => entry.1 ≠ k := by
    intro h
    exact of_decide_eq_true (List.mem_filter.1 h).2 rfl
  refine (List.perm_ext_iff_of_nodup (nodup_keys_toList _).of_map
    (List.nodup_cons.2 ⟨hrest, (nodup_keys_toList map).of_map.filter _⟩)).2 fun entry => ?_
  obtain ⟨a, w⟩ := entry
  rw [Std.ExtTreeMap.mem_toList_iff_getElem?_eq_some, lookup_insert, List.mem_cons, List.mem_filter,
    Std.ExtTreeMap.mem_toList_iff_getElem?_eq_some]
  by_cases ha : k = a
  · subst ha
    simp [eq_comm]
  · simp [ha, Ne.symm ha]

/-- What the values of a map weigh together. -/
def total (weight : β → Nat) (map : Std.ExtTreeMap α β compare) : Nat :=
  (map.toList.map fun entry => weight entry.2).sum

/-- A value that is inserted weighs in the place of the one before it. -/
theorem total_insert (weight : β → Nat) (v : β) :
    total weight (map.insert k v) + (map[k]?.map weight).getD 0 = total weight map + weight v := by
  have hinsert : ∀ w, total weight (map.insert k w) = weight w +
      ((map.toList.filter fun entry => entry.1 ≠ k).map fun entry => weight entry.2).sum := by
    intro w
    unfold total
    rw [((toList_insert_perm map k w).map _).sum_eq, List.map_cons, List.sum_cons]
  cases hk : map[k]? with
  | none =>
    have hall : (map.toList.filter fun entry => entry.1 ≠ k) = map.toList := by
      refine List.filter_eq_self.2 fun entry hentry => decide_eq_true ?_
      rintro rfl
      rw [Std.ExtTreeMap.mem_toList_iff_getElem?_eq_some.1 hentry] at hk
      cases hk
    rw [hinsert, hall, Option.map_none, Option.getD_none]
    exact (Nat.add_zero _).trans (Nat.add_comm _ _)
  | some old =>
    have hold := hinsert old
    rw [insert_of_lookup map k hk] at hold
    rw [hinsert, hold, Option.map_some, Option.getD_some]
    omega

end

/-- The entries inserted in order. -/
def insertAll (map : Std.ExtTreeMap α β compare) (entries : List (α × β)) :
    Std.ExtTreeMap α β compare :=
  entries.foldl (fun map entry => map.insert entry.1 entry.2) map

section

variable [Std.LawfulEqOrd α]

/-- Entries with different keys are all found, and other keys are as they were. -/
theorem getElem?_insertAll {entries : List (α × β)}
    (hkeys : entries.Pairwise fun a b => a.1 ≠ b.1) (map : Std.ExtTreeMap α β compare) :
    (∀ e ∈ entries, (insertAll map entries)[e.1]? = some e.2) ∧
      ∀ k, (∀ e ∈ entries, e.1 ≠ k) → (insertAll map entries)[k]? = map[k]? := by
  induction entries generalizing map with
  | nil => exact ⟨by simp, fun _ _ => rfl⟩
  | cons a entries ih =>
    rw [List.pairwise_cons] at hkeys
    obtain ⟨hfound, hother⟩ := ih hkeys.2 (map.insert a.1 a.2)
    refine ⟨fun e he => ?_, fun k hk => ?_⟩
    · rcases List.mem_cons.1 he with rfl | he
      · exact (hother e.1 fun d hd => (hkeys.1 d hd).symm).trans (by simp)
      · exact hfound e he
    · refine (hother k fun d hd => hk d (List.mem_cons_of_mem _ hd)).trans ?_
      have hne : a.1 ≠ k := hk a List.mem_cons_self
      rw [Std.ExtTreeMap.getElem?_insert]
      simp [hne]

theorem insertAll_toList (map : Std.ExtTreeMap α β compare) : insertAll ∅ map.toList = map := by
  have hkeys : map.toList.Pairwise fun a b => a.1 ≠ b.1 :=
    Std.ExtTreeMap.distinct_keys_toList.imp fun h heq => h (by simp [heq])
  obtain ⟨hfound, hother⟩ := getElem?_insertAll hkeys (∅ : Std.ExtTreeMap α β compare)
  apply Std.ExtTreeMap.ext_getElem?
  intro k
  cases h : map[k]? with
  | some v => exact hfound (k, v) (Std.ExtTreeMap.mem_toList_iff_getElem?_eq_some.2 h)
  | none =>
    rw [hother k]
    · simp
    · rintro ⟨k', v⟩ he rfl
      rw [Std.ExtTreeMap.mem_toList_iff_getElem?_eq_some.1 he] at h
      simp at h

end

/-! ## Values that carry their keys -/

/-- The last value of each key. -/
def indexBy (key : β → α) (values : List β) : Std.ExtTreeMap α β compare :=
  insertAll ∅ (values.map fun value => (key value, value))

variable {key : β → α} {values : List β}

@[simp] theorem indexBy_nil : indexBy key [] = ∅ := rfl

theorem indexBy_concat (value : β) :
    indexBy key (values ++ [value]) = (indexBy key values).insert (key value) value := by
  simp [indexBy, insertAll]

variable [Std.LawfulEqOrd α] [DecidableEq α]

theorem getElem?_indexBy (k : α) :
    (indexBy key values)[k]? = values.reverse.find? fun value => key value = k := by
  induction values using List.reverseRecOn with
  | nil => simp
  | append_singleton values value ih =>
    rw [indexBy_concat, Std.ExtTreeMap.getElem?_insert, List.reverse_append, ih]
    by_cases h : key value = k <;> simp [h]

theorem mem_of_getElem?_indexBy {k : α} {value : β} (h : (indexBy key values)[k]? = some value) :
    value ∈ values ∧ key value = k := by
  rw [getElem?_indexBy] at h
  exact ⟨List.mem_reverse.1 (List.mem_of_find?_eq_some h), by simpa using List.find?_some h⟩

omit [DecidableEq α] in
theorem indexBy_toList {map : Std.ExtTreeMap α β compare}
    (h : ∀ k value, map[k]? = some value → key value = k) :
    indexBy key (map.toList.map (·.2)) = map := by
  have hentries : (map.toList.map (·.2)).map (fun value => (key value, value)) = map.toList := by
    rw [List.map_map]
    conv_rhs => rw [← List.map_id map.toList]
    refine List.map_congr_left fun entry hentry => ?_
    have hkey := h entry.1 entry.2 (Std.ExtTreeMap.mem_toList_iff_getElem?_eq_some.1 hentry)
    exact Prod.ext hkey rfl
  rw [indexBy, hentries, insertAll_toList]

/-- Reading only some of the values gives what is left of the map exactly when no key whose last
value is dropped has one that is not. -/
theorem indexBy_filter_iff {p : β → Bool} :
    indexBy key (values.filter p) = (indexBy key values).filter (fun _ value => p value) ↔
      ∀ k value, (indexBy key values)[k]? = some value → p value = false →
        ∀ other ∈ values, key other = k → p other = false := by
  have hlookup (k : α) : (indexBy key (values.filter p))[k]? =
      values.reverse.find? fun value => p value && key value = k := by
    rw [getElem?_indexBy, ← List.filter_reverse, List.find?_filter]
    simp
  constructor
  · intro heq k value hvalue hp other hother hkey
    have hnone : (indexBy key (values.filter p))[k]? = none := by
      rw [heq, Std.ExtTreeMap.getElem?_filter', hvalue]
      simp [hp]
    rw [hlookup, List.find?_eq_none] at hnone
    simpa [hkey] using hnone other (List.mem_reverse.2 hother)
  · intro h
    apply Std.ExtTreeMap.ext_getElem?
    intro k
    rw [hlookup, Std.ExtTreeMap.getElem?_filter']
    cases hlast : (indexBy key values)[k]? with
    | none =>
      rw [getElem?_indexBy, List.find?_eq_none] at hlast
      rw [Option.filter_none, List.find?_eq_none]
      intro value hvalue
      have hne := hlast value hvalue
      simp_all
    | some value =>
      cases hp : p value with
      | true =>
        rw [Option.filter_some_pos hp]
        rw [getElem?_indexBy] at hlast
        exact find?_and hlast hp
      | false =>
        rw [Option.filter_some_neg (by simp [hp]), List.find?_eq_none]
        intro other hother
        by_cases hkey : key other = k
        · simp [h k value hlast hp other (List.mem_reverse.1 hother) hkey]
        · simp [hkey]
where
  find?_and {p : β → Bool} {q : β → Bool} {values : List β} {value : β}
      (h : values.find? q = some value) (hp : p value = true) :
      (values.find? fun other => p other && q other) = some value := by
    induction values with
    | nil => simp at h
    | cons other values ih =>
      rw [List.find?_cons] at h ⊢
      cases hq : q other with
      | true =>
        rw [hq] at h
        obtain rfl := Option.some.inj h
        simp [hp]
      | false =>
        rw [hq] at h
        simpa using ih h

end AppCore
