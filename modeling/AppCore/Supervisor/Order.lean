import AppCore.Base.Cursor
import AppCore.Supervisor.Lifecycle

/-!
# The order of the services

What `validate` accepts and the order it returns.

* `validOrder_isOk_iff` — it accepts the graphs in which no dependency that is needed is missing and no
  service depends on itself.

The induction is on the depth of the traversal. The names on the path are the services that wait for
the one that is visited; none of them is placed before it is left.
-/

namespace AppCore.Supervisor

variable {W : Type} {services : Services W}

/-- A service depends on another one, and both are registered. -/
def DependsOn (services : Services W) (name dependency : String) : Prop :=
  ∃ service : ManagedService W, services.map[name]? = some service ∧
    dependency ∈ service.descriptor.dependencies.map ServiceDependency.serviceId ∧
    dependency ∈ services.map

/-- Every service is there once and comes after the ones it depends on. -/
structure Ordered (services : Services W) (order : List String) : Prop where
  nodup : order.Nodup
  known : ∀ name ∈ order, name ∈ services.map
  after : ∀ before name rest, order = before ++ name :: rest →
    ∀ dependency, DependsOn services name dependency → dependency ∈ before

/-- What visiting a service makes of the order, when the ones on the path wait for it. -/
structure Visits (services : Services W) (path order order' : List String) : Prop where
  grows : order <+: order'
  ordered : Ordered services order → Ordered services order'
  apart : ∀ name ∈ path, name ∉ order → name ∉ order'

theorem Visits.rfl' {path order : List String} : Visits services path order order :=
  ⟨List.prefix_refl order, id, fun _ _ h => h⟩

theorem Visits.trans {path order order' order'' : List String}
    (h : Visits services path order order') (h' : Visits services path order' order'') :
    Visits services path order order'' :=
  ⟨h.grows.trans h'.grows, fun hordered => h'.ordered (h.ordered hordered),
    fun name hname hnot => h'.apart name hname (h.apart name hname hnot)⟩

theorem ordered_nil : Ordered services [] :=
  ⟨List.nodup_nil, nofun, fun before name rest h => by simp at h⟩

/-- A service is placed after the ones it depends on. -/
theorem Ordered.place {order : List String} {name : String} (h : Ordered services order)
    (hmem : name ∈ services.map) (hnot : name ∉ order)
    (hdependencies : ∀ dependency, DependsOn services name dependency → dependency ∈ order) :
    Ordered services (order ++ [name]) := by
  refine ⟨List.nodup_append.2 ⟨h.nodup, List.nodup_singleton name, ?_⟩, ?_, ?_⟩
  · intro a ha b hb heq
    rw [List.mem_singleton.1 hb] at heq
    exact hnot (heq ▸ ha)
  · intro a ha
    rcases List.mem_append.1 ha with hold | hnew
    · exact h.known a hold
    · rwa [List.mem_singleton.1 hnew]
  · intro before a rest heq dependency hdepends
    rcases List.eq_nil_or_concat rest with rfl | ⟨rest, last, rfl⟩
    · obtain ⟨rfl, hlast⟩ := List.append_inj' heq rfl
      rw [← (List.cons.inj hlast).1] at hdepends
      exact hdependencies dependency hdepends
    · rw [List.concat_eq_append, ← List.cons_append, ← List.append_assoc] at heq
      obtain ⟨horder, -⟩ := List.append_inj' heq rfl
      exact h.after before a rest horder dependency hdepends

/-- A program that goes through a list, when each member is visited by a function that keeps `P`. -/
theorem foldlM_visits {α : Type} {f : List String → α → Except SupervisorError (List String)}
    (path : List String) {members : List α} {order order' : List String}
    (P : α → List String → Prop)
    (hstep : ∀ a ∈ members, ∀ order order', f order a = .ok order' →
      Visits services path order order' ∧ P a order')
    (hgrows : ∀ a order order', order <+: order' → P a order → P a order')
    (h : members.foldlM f order = .ok order') :
    Visits services path order order' ∧ ∀ a ∈ members, P a order' := by
  induction members generalizing order with
  | nil =>
    cases h
    exact ⟨Visits.rfl', nofun⟩
  | cons a members ih =>
    rw [List.foldlM_cons] at h
    cases hfirst : f order a with
    | error e =>
      rw [hfirst] at h
      cases h
    | ok next =>
      rw [hfirst] at h
      obtain ⟨hvisit, hplaced⟩ := hstep a List.mem_cons_self order next hfirst
      obtain ⟨hrest, hall⟩ :=
        ih (fun b hb => hstep b (List.mem_cons_of_mem a hb)) h
      refine ⟨hvisit.trans hrest, fun b hb => ?_⟩
      rcases List.mem_cons.1 hb with rfl | hmem
      · exact hgrows b next order' hrest.grows hplaced
      · exact hall b hmem

/-- **What `visit` does** when it returns: the service is placed, those on the path are not. -/
theorem visits_of_visit {depth : Nat} {name : String} {path order order' : List String}
    (h : visit services depth name path order = .ok order') :
    Visits services path order order' ∧ name ∈ order' := by
  induction depth generalizing name path order order' with
  | zero =>
    unfold visit at h
    split at h
    next horder =>
      cases h
      exact ⟨Visits.rfl', horder⟩
    next =>
      split at h
      · cases h
      · cases hservice : services.map[name]? with
        | none =>
          rw [hservice] at h
          cases h
        | some service =>
          rw [hservice] at h
          cases h
  | succ depth ih =>
    unfold visit at h
    split at h
    next horder =>
      cases h
      exact ⟨Visits.rfl', horder⟩
    next horder =>
      split at h
      · cases h
      next hpath =>
        cases hservice : services.map[name]? with
        | none =>
          rw [hservice] at h
          cases h
        | some service =>
          rw [hservice] at h
          obtain ⟨placed, hfold, hresult⟩ := bind_eq_ok.1 h
          cases hresult
          have hdependencies : Visits services (path ++ [name]) order placed ∧
              ∀ dependency ∈ service.descriptor.dependencies,
                dependency.serviceId ∈ services.map → dependency.serviceId ∈ placed := by
            refine foldlM_visits (path ++ [name]) (fun dependency order =>
              dependency.serviceId ∈ services.map → dependency.serviceId ∈ order) ?_ ?_ hfold
            · intro dependency _ before after hvisit
              split at hvisit
              next hregistered =>
                obtain ⟨hvisits, hplaced⟩ := ih hvisit
                exact ⟨hvisits, fun _ => hplaced⟩
              next hmissing =>
                cases hvisit
                exact ⟨Visits.rfl', fun hregistered => absurd hregistered hmissing⟩
            · intro dependency before after hpre hplaced hregistered
              exact hpre.subset (hplaced hregistered)
          obtain ⟨hvisits, hplaced⟩ := hdependencies
          have hnot : name ∉ placed :=
            hvisits.apart name (List.mem_append_right path List.mem_cons_self) horder
          have hmem : name ∈ services.map :=
            Std.ExtTreeMap.mem_iff_isSome_getElem?.2 (by rw [hservice]; rfl)
          refine ⟨⟨hvisits.grows.trans (List.prefix_append placed [name]), fun hordered => ?_,
            fun a ha hna => ?_⟩, List.mem_append_right placed List.mem_cons_self⟩
          · refine (hvisits.ordered hordered).place hmem hnot ?_
            intro dependency hdepends
            obtain ⟨found, hfound, hlisted, hregistered⟩ := hdepends
            rw [hservice, Option.some.injEq] at hfound
            subst hfound
            obtain ⟨entry, hentry, rfl⟩ := List.mem_map.1 hlisted
            exact hplaced entry hentry hregistered
          · intro hmem'
            rcases List.mem_append.1 hmem' with hold | hnew
            · exact hvisits.apart a (List.mem_append_left [name] ha) hna hold
            · exact hpath (List.mem_singleton.1 hnew ▸ ha)

theorem order_of_topologicalOrder {order : List String} (h : topologicalOrder services = .ok order) :
    Ordered services order ∧ ∀ name ∈ services.map, name ∈ order := by
  obtain ⟨hvisits, hall⟩ := foldlM_visits []
    (fun name order => name ∈ order) (fun name _ order order' => visits_of_visit)
    (fun name order order' hpre hplaced => hpre.subset hplaced) h
  refine ⟨hvisits.ordered ordered_nil, fun name hname => ?_⟩
  exact hall name (Std.ExtTreeMap.mem_keys.2 hname)

theorem Ordered.before {order before rest : List String} {name dependency : String}
    (h : Ordered services order) (heq : order = before ++ name :: rest)
    (hdepends : Relation.TransGen (DependsOn services) name dependency) : dependency ∈ before := by
  induction hdepends with
  | single hdirect => exact h.after before name rest heq _ hdirect
  | tail hfirst hlast ih =>
    obtain ⟨first, second, rfl⟩ := List.append_of_mem ih
    have hmem := h.after first _ (second ++ name :: rest) (by
      rw [heq, List.append_assoc, List.cons_append]) _ hlast
    exact List.mem_append_left _ hmem

theorem acyclic_of_topologicalOrder {order : List String}
    (h : topologicalOrder services = .ok order) (name : String) :
    ¬ Relation.TransGen (DependsOn services) name name := by
  intro hcycle
  obtain ⟨hordered, hall⟩ := order_of_topologicalOrder h
  have hmem : name ∈ order := by
    obtain ⟨first, hdirect, _⟩ := Relation.TransGen.head'_iff.1 hcycle
    obtain ⟨service, hservice, _⟩ := hdirect
    exact hall name (Std.ExtTreeMap.mem_iff_isSome_getElem?.2 (by rw [hservice]; rfl))
  obtain ⟨before, rest, heq⟩ := List.append_of_mem hmem
  have hbefore := hordered.before heq hcycle
  have hnodup := hordered.nodup
  rw [heq, List.nodup_append] at hnodup
  exact hnodup.2.2 name hbefore name List.mem_cons_self rfl

/-! ## The graphs that are accepted -/

/-- No dependency that is needed is missing, and no service depends on itself. -/
structure ValidGraph (services : Services W) : Prop where
  complete : ∀ (name : String) (service : ManagedService W), services.map[name]? = some service →
    ∀ dependency ∈ service.descriptor.dependencies, dependency.requirement ≠ .optional →
      dependency.serviceId ∈ services.map
  acyclic : ∀ name, ¬ Relation.TransGen (DependsOn services) name name

/-- The traversal returns when the services on the path depend on the one that is visited. -/
theorem visit_isOk (hacyclic : ∀ name, ¬ Relation.TransGen (DependsOn services) name name)
    {depth : Nat} {name : String} {path : List String} (order : List String)
    (hmem : name ∈ services.map) (hpath : path.Nodup) (hknown : ∀ a ∈ path, a ∈ services.map)
    (hwaits : ∀ a ∈ path, Relation.TransGen (DependsOn services) a name)
    (hdepth : services.map.size ≤ path.length + depth) :
    ∃ order', visit services depth name path order = .ok order' := by
  have hnot : name ∉ path := fun hname => hacyclic name (hwaits name hname)
  obtain ⟨hnodup, hsub⟩ := path_concat hpath hknown hnot hmem
  induction depth generalizing name path order with
  | zero =>
    have hlen := (hnodup.subperm fun a ha => Std.ExtTreeMap.mem_keys.2 (hsub a ha)).length_le
    rw [Std.ExtTreeMap.length_keys, List.length_append, List.length_singleton] at hlen
    omega
  | succ depth ih =>
    unfold visit
    by_cases horder : name ∈ order
    · exact ⟨order, if_pos horder⟩
    · rw [if_neg horder, if_neg hnot]
      obtain ⟨service, hservice⟩ :=
        Option.isSome_iff_exists.1 (Std.ExtTreeMap.mem_iff_isSome_getElem?.1 hmem)
      rw [hservice]
      have hfold : ∀ (dependencies : List ServiceDependency) (order : List String),
          (∀ dependency ∈ dependencies,
            dependency ∈ service.descriptor.dependencies) →
          ∃ order', dependencies.foldlM (fun order dependency =>
            if dependency.serviceId ∈ services.map then
              visit services depth dependency.serviceId (path ++ [name]) order
            else .ok order) order = .ok order' := by
        intro dependencies
        induction dependencies with
        | nil => exact fun order _ => ⟨order, rfl⟩
        | cons dependency dependencies ihd =>
          intro order hlisted
          have hrest := fun next => ihd next fun d hd => hlisted d (List.mem_cons_of_mem _ hd)
          rw [List.foldlM_cons]
          by_cases hregistered : dependency.serviceId ∈ services.map
          · have hdirect : DependsOn services name dependency.serviceId :=
              ⟨service, hservice,
                List.mem_map_of_mem (hlisted dependency List.mem_cons_self), hregistered⟩
            have hwaits' : ∀ a ∈ path ++ [name],
                Relation.TransGen (DependsOn services) a dependency.serviceId := by
              intro a ha
              rcases List.mem_append.1 ha with hold | hnew
              · exact (hwaits a hold).tail hdirect
              · rw [List.mem_singleton.1 hnew]
                exact Relation.TransGen.single hdirect
            have hnot' : dependency.serviceId ∉ path ++ [name] :=
              fun hname => hacyclic _ (hwaits' _ hname)
            obtain ⟨hnodup', hsub'⟩ := path_concat hnodup hsub hnot' hregistered
            obtain ⟨next, hnext⟩ := ih order hregistered hnodup hsub hwaits' (by
              rw [List.length_append, List.length_singleton]
              omega) hnot' hnodup' hsub'
            rw [if_pos hregistered, hnext]
            exact hrest next
          · rw [if_neg hregistered]
            exact hrest order
      obtain ⟨placed, hplaced⟩ := hfold service.descriptor.dependencies order fun _ h => h
      exact ⟨placed ++ [name], by dsimp only; rw [hplaced]; rfl⟩

theorem topologicalOrder_isOk (hacyclic : ∀ name, ¬ Relation.TransGen (DependsOn services) name name) :
    ∃ order, topologicalOrder services = .ok order := by
  have hfold : ∀ (names order : List String), (∀ name ∈ names, name ∈ services.map) →
      ∃ order', names.foldlM
        (fun order name => visit services services.map.size name [] order) order = .ok order' := by
    intro names
    induction names with
    | nil => exact fun order _ => ⟨order, rfl⟩
    | cons name names ih =>
      intro order hknown
      obtain ⟨next, hnext⟩ := visit_isOk hacyclic order
        (hknown name List.mem_cons_self) List.nodup_nil nofun nofun (Nat.le_add_left _ _)
      rw [List.foldlM_cons, hnext]
      exact ih next fun a ha => hknown a (List.mem_cons_of_mem name ha)
  exact hfold _ [] fun name hname => Std.ExtTreeMap.mem_keys.1 hname

theorem validateDependencies_eq_ok :
    validateDependencies services = .ok () ↔
      ∀ (name : String) (service : ManagedService W), services.map[name]? = some service →
        ∀ dependency ∈ service.descriptor.dependencies, dependency.requirement ≠ .optional →
          dependency.serviceId ∈ services.map := by
  unfold validateDependencies
  rw [forM_eq_ok]
  constructor
  · intro h name service hservice dependency hlisted hneeded
    have hall := h (name, service) (Std.ExtTreeMap.mem_toList_iff_getElem?_eq_some.2 hservice)
    have hfound := forM_eq_ok.1 hall dependency hlisted
    split at hfound
    · cases hfound
    next hgiven =>
      by_contra hmissing
      exact hgiven ⟨hmissing, hneeded⟩
  · intro h entry hentry
    refine forM_eq_ok.2 fun dependency hlisted => if_neg ?_
    intro hgiven
    exact hgiven.1 (h entry.1 entry.2 (Std.ExtTreeMap.mem_toList_iff_getElem?_eq_some.1 hentry)
      dependency hlisted hgiven.2)

/-- The order that `validate` returns. -/
def validOrder (services : Services W) : Except SupervisorError (List String) := do
  validateDependencies services
  topologicalOrder services

theorem order_of_validOrder {order : List String} (h : validOrder services = .ok order) :
    Ordered services order ∧ ∀ name ∈ services.map, name ∈ order := by
  obtain ⟨_, _, h⟩ := bind_eq_ok.1 h
  exact order_of_topologicalOrder h

/-- **What `validate` accepts.** -/
theorem validOrder_isOk_iff : (∃ order, validOrder services = .ok order) ↔ ValidGraph services := by
  constructor
  · intro h
    obtain ⟨order, horder⟩ := h
    obtain ⟨_, hcomplete, htopological⟩ := bind_eq_ok.1 horder
    exact ⟨validateDependencies_eq_ok.1 hcomplete, acyclic_of_topologicalOrder htopological⟩
  · intro h
    obtain ⟨order, horder⟩ := topologicalOrder_isOk h.acyclic
    refine ⟨order, ?_⟩
    rw [validOrder, validateDependencies_eq_ok.2 h.complete]
    exact horder

end AppCore.Supervisor
