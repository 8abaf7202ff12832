import AppCore.Supervisor.Order

/-!
# The traversal with its marks

`graph.rs` as it is written: `visit` works on two sets of marks, on the order and on a path that all
its calls share, and gives up at the first error. The marks say what the order and the path say
already (`visitMarked_eq`), so that it computes what `visit` does, and it needs no more calls on top
of one another than there are services.

* `topologicalOrder_correct` — it always ends, with an order exactly if there is no cycle, and with
  a cycle otherwise.
-/

namespace AppCore.Supervisor

variable {W : Type}

/-- What the calls of `visit` share. -/
structure Marks where
  temporary : Finset String
  permanent : Finset String
  order : List String
  path : List String

/-- The result of a call, if it ends. -/
abbrev Visited := ExceptT SupervisorError Option

/-- `visit`, with at most `fuel` calls on top of one another. -/
def visitMarked (services : Services W) : Nat → String → Marks → Visited Marks
  | 0, _, _ => ExceptT.mk none
  | fuel + 1, name, marks =>
    if name ∈ marks.permanent then pure marks
    else if name ∈ marks.temporary then throw (.dependencyCycle (marks.path ++ [name]))
    else
      match services.map[name]? with
      | none => throw (.serviceNotFound name)
      | some service => do
          let marks ← service.descriptor.dependencies.foldlM (fun marks dependency =>
            if dependency.serviceId ∈ services.map then
              visitMarked services fuel dependency.serviceId marks
            else pure marks)
            { marks with
              temporary := insert name marks.temporary, path := marks.path ++ [name] }
          pure {
            temporary := marks.temporary.erase name
            permanent := insert name marks.permanent
            order := marks.order ++ [name]
            path := marks.path.dropLast }

/-- `topological_order`: each name is visited on a path of its own. -/
def topologicalOrderMarked (services : Services W) (fuel : Nat) :
    Option (Except SupervisorError (List String)) :=
  (services.map.keys.foldlM
    (fun marks name => visitMarked services fuel name { marks with path := [] })
    { temporary := ∅, permanent := ∅, order := [], path := [] } >>= fun marks =>
      (pure marks.order : Visited (List String))).run

/-! ## What the marks say -/

def marksOf (path order : List String) : Marks :=
  { temporary := path.toFinset, permanent := order.toFinset, order, path }

def marked (path : List String) (result : Except SupervisorError (List String)) : Visited Marks :=
  ExceptT.mk (some (result.map (marksOf path)))

theorem foldlM_marked {α : Type} {f : Marks → α → Visited Marks}
    {g : List String → α → Except SupervisorError (List String)} (path : List String)
    {members : List α} (h : ∀ a ∈ members, ∀ order, f (marksOf path order) a = marked path (g order a))
    (order : List String) :
    members.foldlM f (marksOf path order) = marked path (members.foldlM g order) := by
  induction members generalizing order with
  | nil => rfl
  | cons a members ih =>
    rw [List.foldlM_cons, List.foldlM_cons, h a List.mem_cons_self]
    cases hresult : g order a with
    | error e => rfl
    | ok next => exact ih (fun b hb => h b (List.mem_cons_of_mem a hb)) next

variable {path order : List String} {name : String}

/-- What is left of the marks when a service is placed. -/
theorem marksOf_place (hname : name ∉ path) :
    ({ temporary := (marksOf (path ++ [name]) order).temporary.erase name
       permanent := insert name (marksOf (path ++ [name]) order).permanent
       order := (marksOf (path ++ [name]) order).order ++ [name]
       path := (marksOf (path ++ [name]) order).path.dropLast } : Marks) =
      marksOf path (order ++ [name]) := by
  have htemporary : ((path ++ [name]).toFinset).erase name = path.toFinset := by
    ext a
    simp only [Finset.mem_erase, List.mem_toFinset, List.mem_append, List.mem_singleton]
    constructor
    · intro h
      exact h.2.resolve_right h.1
    · intro h
      exact ⟨fun heq => hname (heq ▸ h), Or.inl h⟩
  have hpermanent : insert name order.toFinset = (order ++ [name]).toFinset := by
    ext a
    simp only [Finset.mem_insert, List.mem_toFinset, List.mem_append, List.mem_singleton, or_comm]
  simp only [marksOf, htemporary, hpermanent, List.dropLast_concat]

theorem mem_permanent :
    name ∈ (marksOf path order).permanent ↔ name ∈ order := List.mem_toFinset

theorem mem_temporary :
    name ∈ (marksOf path order).temporary ↔ name ∈ path := List.mem_toFinset

theorem marksOf_begin (path order : List String) (name : String) :
    ({ marksOf path order with
       temporary := insert name (marksOf path order).temporary
       path := (marksOf path order).path ++ [name] } : Marks) = marksOf (path ++ [name]) order := by
  have htemporary : insert name path.toFinset = (path ++ [name]).toFinset := by
    ext a
    simp only [Finset.mem_insert, List.mem_toFinset, List.mem_append, List.mem_singleton, or_comm]
  simp only [marksOf, htemporary]

variable {services : Services W}

theorem length_path_le {path : List String} (hpath : path.Nodup)
    (hknown : ∀ a ∈ path, a ∈ services.map) : path.length ≤ services.map.size := by
  rw [← Std.ExtTreeMap.length_keys]
  exact (hpath.subperm fun a ha => Std.ExtTreeMap.mem_keys.2 (hknown a ha)).length_le

/-- **`visit` with its marks is `visit`**, for a path through different services. -/
theorem visitMarked_eq (services : Services W) {fuel : Nat} (hpath : path.Nodup)
    (hknown : ∀ a ∈ path, a ∈ services.map) (hfuel : services.map.size < path.length + fuel) :
    visitMarked services fuel name (marksOf path order) =
      marked path (visit services services.map.size name path order) := by
  induction fuel generalizing name path order with
  | zero => exact absurd (length_path_le hpath hknown) (Nat.not_le.2 hfuel)
  | succ fuel ih =>
    rw [← visit_succ services hpath hknown (Nat.le_add_left _ _), visitMarked,
      visit.eq_def services (services.map.size + 1)]
    by_cases horder : name ∈ order
    · rw [if_pos horder, if_pos (mem_permanent.2 horder)]
      rfl
    rw [if_neg horder, if_neg (fun h => horder (mem_permanent.1 h))]
    by_cases hname : name ∈ path
    · rw [if_pos hname, if_pos (mem_temporary.2 hname)]
      rfl
    rw [if_neg hname, if_neg (fun h => hname (mem_temporary.1 h))]
    cases hservice : services.map[name]? with
    | none => rfl
    | some service =>
      have hmem : name ∈ services.map :=
        Std.ExtTreeMap.mem_iff_isSome_getElem?.2 (by rw [hservice]; rfl)
      obtain ⟨hnodup, hsub⟩ := path_concat hpath hknown hname hmem
      have hdependencies := foldlM_marked
        (f := fun marks dependency =>
          if dependency.serviceId ∈ services.map then
            visitMarked services fuel dependency.serviceId marks
          else pure marks)
        (g := fun order dependency =>
          if dependency.serviceId ∈ services.map then
            visit services services.map.size dependency.serviceId (path ++ [name]) order
          else .ok order)
        (path ++ [name]) (fun dependency (_ : dependency ∈ service.descriptor.dependencies) order => by
          by_cases hregistered : dependency.serviceId ∈ services.map
          · rw [if_pos hregistered, if_pos hregistered]
            refine ih hnodup hsub ?_
            rw [List.length_append, List.length_singleton]
            omega
          · rw [if_neg hregistered, if_neg hregistered]
            rfl) order
      dsimp only
      rw [marksOf_begin, hdependencies]
      cases service.descriptor.dependencies.foldlM (fun order dependency =>
          if dependency.serviceId ∈ services.map then
            visit services services.map.size dependency.serviceId (path ++ [name]) order
          else .ok order) order with
      | error e => rfl
      | ok placed =>
        change (pure _ : Visited Marks) = marked path (.ok (placed ++ [name]))
        rw [marksOf_place hname]
        rfl

/-- The traversal ends, whatever the graph. -/
theorem topologicalOrderMarked_eq (services : Services W) {fuel : Nat}
    (hfuel : services.map.size < fuel) :
    topologicalOrderMarked services fuel = some (topologicalOrder services) := by
  have hroots := foldlM_marked
    (f := fun marks name => visitMarked services fuel name { marks with path := [] })
    (g := fun order name => visit services services.map.size name [] order) []
    (fun name (_ : name ∈ services.map.keys) order =>
      visitMarked_eq services List.nodup_nil (fun _ h => absurd h List.not_mem_nil)
        (by rwa [List.length_nil, Nat.zero_add])) []
  unfold topologicalOrderMarked topologicalOrder
  change ((services.map.keys.foldlM _ (marksOf [] [])) >>= _ : Visited (List String)).run = _
  rw [hroots]
  cases services.map.keys.foldlM
    (fun order name => visit services services.map.size name [] order) [] with
  | error e => rfl
  | ok order => rfl

/-! ## The cycle that is reported -/

/-- A path that comes back to one of its services, each of which depends on the next. -/
def IsCycleReport (services : Services W) (error : SupervisorError) : Prop :=
  ∃ path last, error = .dependencyCycle (path ++ [last]) ∧ last ∈ path ∧
    (path ++ [last]).IsChain (DependsOn services)

/-- A traversal that fails fails at one of the members. -/
theorem foldlM_error {α β ε : Type} {f : β → α → Except ε β} {members : List α} {b : β} {e : ε}
    (h : members.foldlM f b = .error e) : ∃ a ∈ members, ∃ b, f b a = .error e := by
  induction members generalizing b with
  | nil => cases h
  | cons a members ih =>
    rw [List.foldlM_cons] at h
    cases hfirst : f b a with
    | error e' =>
      rw [hfirst] at h
      obtain rfl := Except.error.inj h
      exact ⟨a, List.mem_cons_self, b, hfirst⟩
    | ok next =>
      rw [hfirst] at h
      obtain ⟨other, hmem, hother⟩ := ih h
      exact ⟨other, List.mem_cons_of_mem a hmem, hother⟩

/-- **What `visit` reports** when the services on the path depend on one another. The induction is on
the number of services that are not on the path. -/
theorem cycle_of_visit {n : Nat} {e : SupervisorError} (hmem : name ∈ services.map)
    (hpath : path.Nodup) (hknown : ∀ a ∈ path, a ∈ services.map)
    (hchain : (path ++ [name]).IsChain (DependsOn services))
    (hn : services.map.size < path.length + n)
    (h : visit services services.map.size name path order = .error e) :
    IsCycleReport services e := by
  induction n generalizing name path order with
  | zero => exact absurd (length_path_le hpath hknown) (Nat.not_le.2 hn)
  | succ n ih =>
    rw [← visit_succ services hpath hknown (Nat.le_add_left _ _),
      visit.eq_def services (services.map.size + 1)] at h
    by_cases horder : name ∈ order
    · rw [if_pos horder] at h
      cases h
    rw [if_neg horder] at h
    by_cases hname : name ∈ path
    · rw [if_pos hname] at h
      exact ⟨path, name, (Except.error.inj h).symm, hname, hchain⟩
    rw [if_neg hname] at h
    obtain ⟨service, hservice⟩ :=
      Option.isSome_iff_exists.1 (Std.ExtTreeMap.mem_iff_isSome_getElem?.1 hmem)
    obtain ⟨hnodup, hsub⟩ := path_concat hpath hknown hname hmem
    rw [hservice] at h
    dsimp only at h
    cases hfold : service.descriptor.dependencies.foldlM (fun order dependency =>
        if dependency.serviceId ∈ services.map then
          visit services services.map.size dependency.serviceId (path ++ [name]) order
        else .ok order) order with
    | ok placed =>
      rw [hfold] at h
      cases h
    | error e' =>
      rw [hfold] at h
      obtain rfl := Except.error.inj h
      obtain ⟨dependency, hlisted, before, hvisit⟩ := foldlM_error hfold
      by_cases hregistered : dependency.serviceId ∈ services.map
      · rw [if_pos hregistered] at hvisit
        have hdirect : DependsOn services name dependency.serviceId :=
          ⟨service, hservice, List.mem_map_of_mem hlisted, hregistered⟩
        refine ih hregistered hnodup hsub ?_ ?_ hvisit
        · rw [List.isChain_append]
          refine ⟨hchain, List.isChain_singleton _, ?_⟩
          intro a ha b hb
          rw [List.getLast?_concat, Option.mem_some_iff] at ha
          rw [List.head?_cons, Option.mem_some_iff] at hb
          rw [← ha, ← hb]
          exact hdirect
        · rw [List.length_append, List.length_singleton]
          omega
      · rw [if_neg hregistered] at hvisit
        cases hvisit

theorem cycle_of_topologicalOrder {e : SupervisorError} (h : topologicalOrder services = .error e) :
    IsCycleReport services e := by
  obtain ⟨name, hname, order, hvisit⟩ := foldlM_error h
  exact cycle_of_visit (Std.ExtTreeMap.mem_keys.1 hname) List.nodup_nil
    (fun _ h => absurd h List.not_mem_nil) (List.isChain_singleton name)
    (by rw [List.length_nil, Nat.zero_add]; exact Nat.lt_succ_self _) hvisit

/-- **The order of the services is sound and complete.** The traversal ends for every graph. It
returns an order if and only if no service depends on itself; that has every registered service once,
each behind the ones it depends on. Otherwise it returns a path that comes back to one of its
services, each of which depends on the next. -/
theorem topologicalOrder_correct (services : Services W) :
    ∃ result : Except SupervisorError (List String),
      (∀ fuel, services.map.size < fuel → topologicalOrderMarked services fuel = some result) ∧
      ((∃ order, result = .ok order) ↔
        ∀ name, ¬ Relation.TransGen (DependsOn services) name name) ∧
      (∀ order, result = .ok order → order.Nodup ∧ (∀ name, name ∈ order ↔ name ∈ services.map) ∧
        ∀ before name rest, order = before ++ name :: rest →
          ∀ dependency, DependsOn services name dependency → dependency ∈ before) ∧
      ∀ e, result = .error e → ∃ path last, e = .dependencyCycle (path ++ [last]) ∧ last ∈ path ∧
        (path ++ [last]).IsChain (DependsOn services) := by
  refine ⟨topologicalOrder services, fun fuel => topologicalOrderMarked_eq services, ?_, ?_, ?_⟩
  · constructor
    · intro h
      obtain ⟨order, horder⟩ := h
      exact acyclic_of_topologicalOrder horder
    · exact topologicalOrder_isOk
  · intro order horder
    obtain ⟨hordered, hall⟩ := order_of_topologicalOrder horder
    exact ⟨hordered.nodup, fun name => ⟨hordered.known name, hall name⟩, hordered.after⟩
  · intro e he
    exact cycle_of_topologicalOrder he

end AppCore.Supervisor
