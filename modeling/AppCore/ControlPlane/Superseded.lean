import AppCore.ControlPlane.Leadership

/-!
# Leases that were superseded

A guard compares a lease that it is given with the one it has for the same service, when that is of
the same tenant and cluster. It has one lease for a service, whatever the tenant and cluster, and
none after a removal, so that the lease it should compare with may be gone.

* `never_goes_back_iff` — in a run of `set_service_lease`, no accepted lease is superseded by one
  accepted before and no holder of a superseded lease may write, exactly if this holds of the leases
  that are accepted without a comparison.
-/

namespace AppCore.ControlPlane

/-- `StaticServiceLeadershipGuard::new`. -/
def StaticServiceLeadershipGuard.ofLeases (leases : List ServiceLeaderLease) :
    StaticServiceLeadershipGuard :=
  { leases := leases.foldl (fun map lease => map.insert lease.serviceId.asStr lease) ∅ }

/-- A call of `set_service_lease`. -/
structure SetLease where
  serviceId : ServiceId
  lease : Option ServiceLeaderLease

/-- Leases for the same service of the same tenant and cluster. -/
def SameScope (a b : ServiceLeaderLease) : Prop :=
  a.serviceId = b.serviceId ∧ a.tenantId = b.tenantId ∧ a.clusterId = b.clusterId

/-- A lease supersedes another one of its scope by its epoch, or by who has it in that epoch. -/
def Supersedes (a b : ServiceLeaderLease) : Prop :=
  SameScope a b ∧ (b.epoch < a.epoch ∨ b.epoch = a.epoch ∧ b.holderCoreId ≠ a.holderCoreId)

/-- A guard and the leases that it accepted, the latest of them last. -/
structure GuardHistory where
  guard : StaticServiceLeadershipGuard
  accepted : List ServiceLeaderLease

namespace GuardHistory

/-- A new guard; it accepted what it has. -/
def ofLeases (leases : List ServiceLeaderLease) : GuardHistory :=
  let guard := StaticServiceLeadershipGuard.ofLeases leases
  { guard, accepted := leases.filter fun lease =>
      guard.currentServiceLease lease.serviceId = some lease }

/-- One call; a lease that is refused changes nothing. -/
def step (s : GuardHistory) (call : SetLease) : Option GuardHistory :=
  match s.guard.setServiceLease call.serviceId call.lease with
  | .ok guard => some { guard, accepted := s.accepted ++ call.lease.toList }
  | .error _ => some s

/-- No accepted lease is superseded by one that was accepted before, and who may write for a service
holds a lease that none of the accepted ones supersedes. -/
structure NeverGoesBack (s : GuardHistory) : Prop where
  accepted : s.accepted.Pairwise fun earlier later => ¬ Supersedes earlier later
  allowed : ∀ (serviceId : ServiceId) (tenantId : TenantId) (clusterId : ClusterId)
    (coreId : CoreId) (minEpoch : Option UInt64) (nowMs : UInt64),
    s.guard.checkServiceWritePermission serviceId tenantId clusterId coreId minEpoch nowMs = .allowed →
    ∀ lease ∈ s.accepted, lease.serviceId = serviceId → lease.tenantId = tenantId →
      lease.clusterId = clusterId → ∃ current, s.guard.currentServiceLease serviceId = some current ∧
        current.holderCoreId = coreId ∧ ¬ Supersedes lease current

/-- A lease that finds none of its scope in the guard is not superseded by one accepted before. -/
def Unsuperseded (s : GuardHistory) (call : SetLease) : Prop :=
  ∀ lease, call.lease = some lease → lease.serviceId = call.serviceId →
    (∀ existing, s.guard.currentServiceLease call.serviceId = some existing →
      ¬ (existing.tenantId = lease.tenantId ∧ existing.clusterId = lease.clusterId)) →
    ∀ earlier ∈ s.accepted, ¬ Supersedes earlier lease

variable {s s' : GuardHistory} {call : SetLease}

theorem not_supersedes_iff {a b : ServiceLeaderLease} :
    ¬ Supersedes a b ↔ (SameScope a b → a.epoch ≤ b.epoch ∧
      (a.epoch = b.epoch → a.holderCoreId = b.holderCoreId)) := by
  unfold Supersedes
  constructor
  · intro h hscope
    refine ⟨UInt64.not_lt.1 fun hlt => h ⟨hscope, Or.inl hlt⟩, fun heq => ?_⟩
    by_contra hne
    exact h ⟨hscope, Or.inr ⟨heq.symm, fun hsame => hne hsame.symm⟩⟩
  · intro h hsupersedes
    obtain ⟨hscope, hepoch⟩ := hsupersedes
    obtain ⟨hle, hsame⟩ := h hscope
    rcases hepoch with hlt | ⟨heq, hne⟩
    · exact UInt64.not_le.2 hlt hle
    · exact hne (hsame heq.symm).symm

theorem not_supersedes_self (a : ServiceLeaderLease) : ¬ Supersedes a a :=
  not_supersedes_iff.2 fun _ => ⟨UInt64.le_refl _, fun _ => rfl⟩

theorem not_supersedes_trans {a b c : ServiceLeaderLease} (hab : ¬ Supersedes a b)
    (hbc : ¬ Supersedes b c) (hscope : SameScope b c) : ¬ Supersedes a c := by
  refine not_supersedes_iff.2 fun hac => ?_
  have hscope' : SameScope a b :=
    ⟨hac.1.trans hscope.1.symm, hac.2.1.trans hscope.2.1.symm, hac.2.2.trans hscope.2.2.symm⟩
  obtain ⟨hfirst, hfirstSame⟩ := not_supersedes_iff.1 hab hscope'
  obtain ⟨hsecond, hsecondSame⟩ := not_supersedes_iff.1 hbc hscope
  refine ⟨UInt64.le_trans hfirst hsecond, fun heq => ?_⟩
  have hle : b.epoch ≤ a.epoch := heq ▸ hsecond
  have hmiddle : a.epoch = b.epoch := UInt64.le_antisymm hfirst hle
  exact (hfirstSame hmiddle).trans (hsecondSame (hmiddle ▸ heq))

/-- The comparison of the guard. -/
theorem replaceError_eq_none {existing replacement : ServiceLeaderLease}
    (hservice : existing.serviceId = replacement.serviceId) :
    StaticServiceLeadershipGuard.replaceError existing replacement = none ↔
      ¬ Supersedes existing replacement := by
  unfold StaticServiceLeadershipGuard.replaceError
  by_cases hscope : existing.tenantId = replacement.tenantId ∧
      existing.clusterId = replacement.clusterId
  · have hsame : SameScope existing replacement := ⟨hservice, hscope⟩
    by_cases hlt : replacement.epoch < existing.epoch
    · simp [hscope, hlt, Supersedes, hsame]
    · by_cases hepoch : replacement.epoch = existing.epoch ∧
          replacement.holderCoreId ≠ existing.holderCoreId
      · simp [hscope, hepoch, Supersedes, hsame]
      · have hnone : ¬ Supersedes existing replacement := fun h =>
          h.2.elim hlt hepoch
        simp [hscope, hlt, hnone]
        exact fun heq => not_not.1 fun hne => hepoch ⟨heq, hne⟩
  · have hnone : ¬ Supersedes existing replacement := fun h => hscope h.1.2
    simp [hscope, hnone]

theorem serviceId_injective {a b : ServiceId} (h : a.asStr = b.asStr) : a = b := by
  obtain ⟨a⟩ := a
  obtain ⟨b⟩ := b
  exact congrArg ServiceId.mk h

/-- A lease that is not superseded by the one in the guard is accepted. -/
theorem step_accepts {lease : ServiceLeaderLease} (hlease : call.lease = some lease)
    (hservice : lease.serviceId = call.serviceId)
    (hnot : ∀ existing, s.guard.currentServiceLease call.serviceId = some existing →
      existing.serviceId = call.serviceId ∧ ¬ Supersedes existing lease) :
    s.step call = some {
      guard := { leases := s.guard.leases.insert call.serviceId.asStr lease }
      accepted := s.accepted ++ [lease] } := by
  have herror : ((s.guard.currentServiceLease call.serviceId).bind fun existing =>
      StaticServiceLeadershipGuard.replaceError existing lease) = none := by
    cases hcurrent : s.guard.currentServiceLease call.serviceId with
    | none => rfl
    | some existing =>
      obtain ⟨hsame, hsupersedes⟩ := hnot existing hcurrent
      exact (replaceError_eq_none (hsame.trans hservice.symm)).2 hsupersedes
  unfold step StaticServiceLeadershipGuard.setServiceLease
  simp [hlease, hservice, herror]

/-- The leases of the guard stand under their services. -/
def Keyed (s : GuardHistory) : Prop :=
  ∀ (key : String) (lease : ServiceLeaderLease), s.guard.leases[key]? = some lease →
    lease.serviceId.asStr = key

/-- What a call does: nothing, it removes a lease, or it accepts one. -/
theorem step_cases (h : s.step call = some s')
    (hkeyed : s.Keyed) :
    s' = s ∨
    (s'.guard.leases = s.guard.leases.erase call.serviceId.asStr ∧ s'.accepted = s.accepted) ∨
    ∃ lease, call.lease = some lease ∧ lease.serviceId = call.serviceId ∧
      (∀ existing, s.guard.currentServiceLease call.serviceId = some existing →
        ¬ Supersedes existing lease) ∧
      s'.guard.leases = s.guard.leases.insert call.serviceId.asStr lease ∧
      s'.accepted = s.accepted ++ [lease] := by
  cases hlease : call.lease with
  | none =>
    right; left
    unfold step at h
    rw [hlease, LeaseCluster.setServiceLease_none] at h
    obtain rfl := Option.some.inj h
    exact ⟨rfl, List.append_nil _⟩
  | some lease =>
    have hsame : ∀ existing, s.guard.currentServiceLease call.serviceId = some existing →
        existing.serviceId = call.serviceId := fun existing hcurrent =>
      serviceId_injective (hkeyed _ existing hcurrent)
    by_cases haccepts : lease.serviceId = call.serviceId ∧
        ∀ existing, s.guard.currentServiceLease call.serviceId = some existing →
          ¬ Supersedes existing lease
    · obtain ⟨hservice, hnot⟩ := haccepts
      right; right
      rw [step_accepts hlease hservice fun existing hcurrent =>
        ⟨hsame existing hcurrent, hnot existing hcurrent⟩] at h
      obtain rfl := Option.some.inj h
      exact ⟨lease, rfl, hservice, hnot, rfl, rfl⟩
    · left
      have herror : ∃ error, s.guard.setServiceLease call.serviceId (some lease) = .error error := by
        unfold StaticServiceLeadershipGuard.setServiceLease
        by_cases hservice : lease.serviceId = call.serviceId
        · simp only [hservice, true_and, not_forall, not_not] at haccepts
          obtain ⟨existing, hcurrent, hsupersedes⟩ := haccepts
          have hnone : StaticServiceLeadershipGuard.replaceError existing lease ≠ none := fun h =>
            (replaceError_eq_none ((hsame existing hcurrent).trans hservice.symm)).1 h hsupersedes
          obtain ⟨error, herror⟩ := Option.ne_none_iff_exists'.1 hnone
          refine ⟨error, ?_⟩
          simp [hservice, hcurrent, herror]
        · exact ⟨_, if_pos (by simp [hservice])⟩
      obtain ⟨error, herror⟩ := herror
      unfold step at h
      rw [hlease, herror] at h
      exact (Option.some.inj h).symm

/-! ## The invariant -/

theorem lookup_of_erased {leases leases' : Std.ExtTreeMap String ServiceLeaderLease compare}
    {service key : String} {lease : ServiceLeaderLease} (herased : leases' = leases.erase service)
    (h : leases'[key]? = some lease) : leases[key]? = some lease := by
  rw [herased, lookup_erase] at h
  by_cases hkey : service = key
  · rw [if_pos hkey] at h
    cases h
  · rwa [if_neg hkey] at h

theorem keyed_step (h : s.Keyed) (hstep : s.step call = some s') : s'.Keyed := by
  rcases step_cases hstep h with rfl | ⟨hleases, -⟩ | ⟨lease, -, hservice, -, hleases, -⟩
  · exact h
  · exact fun key lease hfound => h key lease (lookup_of_erased hleases hfound)
  · intro key found hfound
    rw [hleases, lookup_insert] at hfound
    by_cases hkey : call.serviceId.asStr = key
    · rw [if_pos hkey] at hfound
      rw [← Option.some.inj hfound, hservice, hkey]
    · rw [if_neg hkey] at hfound
      exact h key found hfound

/-- The leases stand under their services, none that was accepted is superseded by an earlier one, and
those in the guard by none. -/
structure Latest (s : GuardHistory) : Prop where
  keyed : s.Keyed
  held : ∀ (key : String) (lease : ServiceLeaderLease), s.guard.leases[key]? = some lease →
    ∀ earlier ∈ s.accepted, ¬ Supersedes earlier lease
  accepted : s.accepted.Pairwise fun earlier later => ¬ Supersedes earlier later

/-- A guard that allows a core to write has a lease of it. -/
theorem current_of_allowed {guard : StaticServiceLeadershipGuard} {serviceId : ServiceId}
    {tenantId : TenantId} {clusterId : ClusterId} {coreId : CoreId} {minEpoch : Option UInt64}
    {nowMs : UInt64}
    (h : guard.checkServiceWritePermission serviceId tenantId clusterId coreId minEpoch nowMs =
      .allowed) :
    ∃ current, guard.currentServiceLease serviceId = some current ∧
      current.holderCoreId = coreId := by
  unfold StaticServiceLeadershipGuard.checkServiceWritePermission at h
  cases hcurrent : guard.currentServiceLease serviceId with
  | none =>
    rw [hcurrent] at h
    cases h
  | some lease =>
    rw [hcurrent] at h
    dsimp only at h
    by_cases hexpired : lease.expiresAtMs ≤ nowMs
    · rw [if_pos hexpired] at h
      cases h
    rw [if_neg hexpired] at h
    by_cases hholder : lease.serviceId ≠ serviceId ∨ lease.tenantId ≠ tenantId ∨
        lease.clusterId ≠ clusterId ∨ lease.holderCoreId ≠ coreId
    · rw [if_pos hholder] at h
      cases h
    · simp only [ne_eq, not_or, not_not] at hholder
      exact ⟨lease, rfl, hholder.2.2.2⟩

theorem Latest.neverGoesBack (h : s.Latest) : s.NeverGoesBack := by
  refine ⟨h.accepted, ?_⟩
  intro serviceId tenantId clusterId coreId minEpoch nowMs hallowed lease hlease _ _ _
  obtain ⟨current, hcurrent, hholder⟩ := current_of_allowed hallowed
  exact ⟨current, hcurrent, hholder, h.held _ current hcurrent lease hlease⟩

/-- The step of the invariant. -/
theorem latest_step (h : s.Latest) (hcall : s.Unsuperseded call) (hstep : s.step call = some s') :
    s'.Latest := by
  have hkeyed := keyed_step h.keyed hstep
  rcases step_cases hstep h.keyed with rfl | ⟨hleases, haccepted⟩ |
    ⟨lease, hlease, hservice, hnot, hleases, haccepted⟩
  · exact h
  · refine ⟨hkeyed, fun key lease hfound => ?_, haccepted ▸ h.accepted⟩
    rw [haccepted]
    exact h.held key lease (lookup_of_erased hleases hfound)
  · -- the lease is compared with the one of its scope, or there is none of its scope
    have hnew : ∀ earlier ∈ s.accepted, ¬ Supersedes earlier lease := by
      by_cases hexisting : ∃ existing, s.guard.currentServiceLease call.serviceId = some existing ∧
          existing.tenantId = lease.tenantId ∧ existing.clusterId = lease.clusterId
      · obtain ⟨existing, hcurrent, hscope⟩ := hexisting
        intro earlier hearlier
        have hsame : existing.serviceId = lease.serviceId :=
          (serviceId_injective (h.keyed _ existing hcurrent)).trans hservice.symm
        exact not_supersedes_trans (h.held _ existing hcurrent earlier hearlier)
          (hnot existing hcurrent) ⟨hsame, hscope⟩
      · exact hcall lease hlease hservice fun existing hcurrent hscope =>
          hexisting ⟨existing, hcurrent, hscope⟩
    refine ⟨hkeyed, fun key found hfound => ?_, ?_⟩
    · rw [hleases, lookup_insert] at hfound
      rw [haccepted]
      intro earlier hearlier
      by_cases hkey : call.serviceId.asStr = key
      · rw [if_pos hkey] at hfound
        obtain rfl := Option.some.inj hfound
        rcases List.mem_append.1 hearlier with hold | hlast
        · exact hnew earlier hold
        · rw [List.mem_singleton.1 hlast]
          exact not_supersedes_self lease
      · rw [if_neg hkey] at hfound
        rcases List.mem_append.1 hearlier with hold | hlast
        · exact h.held key found hfound earlier hold
        · intro hsupersedes
          rw [List.mem_singleton.1 hlast] at hsupersedes
          apply hkey
          rw [← hservice, hsupersedes.1.1]
          exact h.keyed key found hfound
    · rw [haccepted, List.pairwise_append]
      refine ⟨h.accepted, List.pairwise_singleton _ _, fun earlier hearlier later hlater => ?_⟩
      rw [List.mem_singleton.1 hlater]
      exact hnew earlier hearlier

theorem unsuperseded_of_step (hkeyed : s.Keyed)
    (hnext : ∀ s', s.step call = some s' → s'.NeverGoesBack) : s.Unsuperseded call := by
  intro lease hlease hservice hnone earlier hearlier
  have hstep := step_accepts hlease hservice fun existing hcurrent =>
    ⟨serviceId_injective (hkeyed _ existing hcurrent), fun hsupersedes =>
      hnone existing hcurrent hsupersedes.1.2⟩
  have hpairwise := (hnext _ hstep).accepted
  exact (List.pairwise_append.1 hpairwise).2.2 earlier hearlier lease List.mem_cons_self

theorem keyed_foldl_insert {leases : List ServiceLeaderLease}
    {map : Std.ExtTreeMap String ServiceLeaderLease compare}
    (h : ∀ (key : String) (lease : ServiceLeaderLease), map[key]? = some lease →
      lease.serviceId.asStr = key) {key : String} {lease : ServiceLeaderLease}
    (hfound : (leases.foldl (fun map lease => map.insert lease.serviceId.asStr lease) map)[key]? =
      some lease) : lease.serviceId.asStr = key := by
  induction leases generalizing map with
  | nil => exact h key lease hfound
  | cons first leases ih =>
    refine ih (fun k l hl => ?_) hfound
    rw [lookup_insert] at hl
    by_cases hkey : first.serviceId.asStr = k
    · rw [if_pos hkey] at hl
      rw [← Option.some.inj hl, hkey]
    · rw [if_neg hkey] at hl
      exact h k l hl

theorem latest_ofLeases (leases : List ServiceLeaderLease) : (ofLeases leases).Latest := by
  have hkeyed : (ofLeases leases).Keyed := fun key lease hfound =>
    keyed_foldl_insert (by simp) hfound
  have haccepted : ∀ earlier ∈ (ofLeases leases).accepted,
      (ofLeases leases).guard.leases[earlier.serviceId.asStr]? = some earlier := fun earlier hearlier =>
    of_decide_eq_true (List.mem_filter.1 hearlier).2
  have hheld : ∀ (key : String) (lease : ServiceLeaderLease),
      (ofLeases leases).guard.leases[key]? = some lease →
      ∀ earlier ∈ (ofLeases leases).accepted, ¬ Supersedes earlier lease := by
    intro key lease hfound earlier hearlier hsupersedes
    have hsame := haccepted earlier hearlier
    rw [hsupersedes.1.1, hkeyed key lease hfound, hfound] at hsame
    obtain rfl := Option.some.inj hsame
    exact not_supersedes_self lease hsupersedes
  refine ⟨hkeyed, hheld, List.pairwise_iff_forall_sublist.2 ?_⟩
  intro earlier later hsub
  exact hheld _ later (haccepted later (hsub.subset (by simp))) earlier (hsub.subset (by simp))

theorem keyed_run {calls : List SetLease} (h : s.Keyed) (hrun : runFrom step s calls = some s') :
    s'.Keyed := by
  induction calls generalizing s with
  | nil =>
    cases hrun
    exact h
  | cons call calls ih =>
    obtain ⟨next, hstep, hrest⟩ := Option.bind_eq_some_iff.1 hrun
    exact ih (keyed_step h hstep) hrest

end GuardHistory

open GuardHistory

/-- **When a guard never goes back to a superseded lease**: in a run of calls from any guard, the
accepted leases are never superseded by earlier ones, and no core may write with a superseded lease, if
and only if a lease that finds none of its tenant and cluster in the guard is never superseded by one
that was accepted before. -/
theorem never_goes_back_iff (leases : List ServiceLeaderLease) (calls : List SetLease) :
    Throughout GuardHistory.step NeverGoesBack (.ofLeases leases) calls ↔
      EachStep GuardHistory.step Unsuperseded (.ofLeases leases) calls := by
  constructor
  · intro h before call after s heq hrun
    refine unsuperseded_of_step (keyed_run (latest_ofLeases leases).keyed hrun) ?_
    intro s' hstep
    exact h (before ++ [call]) after s' (by simp [heq]) (runFrom_concat_eq_some.2 ⟨s, hrun, hstep⟩)
  · intro h
    have hlatest : Throughout GuardHistory.step Latest (.ofLeases leases) calls :=
      throughout_of_step (latest_ofLeases leases)
        (fun s call s' hs hcall hstep => latest_step hs hcall hstep) h
    exact hlatest.imp fun s hs => hs.neverGoesBack

/-! ### An old lease that comes back -/

def tenantLease (tenant holder : String) (epoch : UInt64) : ServiceLeaderLease :=
  { serviceId := ⟨"orders"⟩, tenantId := ⟨tenant⟩, clusterId := ⟨"cluster-a"⟩, holderCoreId := ⟨holder⟩,
    epoch, acquiredAtMs := 0, expiresAtMs := 1000 }

/-- A lease of epoch 2, a call in between, and a lease of epoch 1 of another core. -/
def lateCalls (between : Option ServiceLeaderLease) : List SetLease :=
  [⟨⟨"orders"⟩, some (tenantLease "tenant-a" "core-b" 2)⟩, ⟨⟨"orders"⟩, between⟩,
    ⟨⟨"orders"⟩, some (tenantLease "tenant-a" "core-a" 1)⟩]

theorem goes_back_of_between {between : Option ServiceLeaderLease} {s : GuardHistory}
    (hrun : runFrom GuardHistory.step (.ofLeases [])
      ((lateCalls between).take 2) = some s)
    (haccepted : tenantLease "tenant-a" "core-b" 2 ∈ s.accepted)
    (hother : ∀ existing, s.guard.currentServiceLease ⟨"orders"⟩ = some existing →
      existing.tenantId ≠ ⟨"tenant-a"⟩) :
    ¬ Throughout GuardHistory.step NeverGoesBack (.ofLeases []) (lateCalls between) := by
  intro h
  have hkeyed := keyed_run (latest_ofLeases []).keyed hrun
  have hcall : s.Unsuperseded ⟨⟨"orders"⟩, some (tenantLease "tenant-a" "core-a" 1)⟩ :=
    unsuperseded_of_step hkeyed fun s' hstep =>
      h (lateCalls between) [] s' (List.append_nil _).symm
        (runFrom_concat_eq_some.2 ⟨s, hrun, hstep⟩)
  exact hcall _ rfl rfl (fun existing hcurrent hscope => hother existing hcurrent hscope.1) _
    haccepted ⟨⟨rfl, rfl, rfl⟩, Or.inl (by decide)⟩

/-- A guard that has accepted the lease of epoch 2. -/
def firstAccepted : GuardHistory where
  guard := ⟨(∅ : Std.ExtTreeMap String ServiceLeaderLease compare).insert "orders"
    (tenantLease "tenant-a" "core-b" 2)⟩
  accepted := [tenantLease "tenant-a" "core-b" 2]

theorem step_firstLease : (GuardHistory.ofLeases []).step
    ⟨⟨"orders"⟩, some (tenantLease "tenant-a" "core-b" 2)⟩ = some firstAccepted :=
  step_accepts rfl rfl fun existing hcurrent => by
    have hnone : (GuardHistory.ofLeases []).guard.currentServiceLease ⟨"orders"⟩ = none :=
      Std.ExtTreeMap.getElem?_empty
    rw [hnone] at hcurrent
    cases hcurrent

theorem step_otherTenant : firstAccepted.step
    ⟨⟨"orders"⟩, some (tenantLease "tenant-b" "core-c" 1)⟩ = some {
      guard := ⟨firstAccepted.guard.leases.insert "orders" (tenantLease "tenant-b" "core-c" 1)⟩
      accepted := firstAccepted.accepted ++ [tenantLease "tenant-b" "core-c" 1] } :=
  step_accepts rfl rfl fun existing hcurrent => by
    change (firstAccepted.guard.leases)["orders"]? = some existing at hcurrent
    rw [firstAccepted, lookup_insert, if_pos rfl] at hcurrent
    obtain rfl := Option.some.inj hcurrent
    refine ⟨rfl, fun hsupersedes => ?_⟩
    exact absurd hsupersedes.1.2.1 (by decide)

theorem step_removal : firstAccepted.step ⟨⟨"orders"⟩, none⟩ = some {
    guard := ⟨firstAccepted.guard.leases.erase "orders"⟩
    accepted := firstAccepted.accepted ++ [] } := by
  unfold GuardHistory.step
  rw [LeaseCluster.setServiceLease_none]
  rfl

/-- Behind a removal, and behind a lease of another tenant, an older lease is accepted. -/
theorem goes_back :
    (¬ ∀ leases calls, Throughout GuardHistory.step NeverGoesBack (.ofLeases leases) calls) ∧
      ¬ Throughout GuardHistory.step NeverGoesBack (.ofLeases []) (lateCalls none) ∧
      ¬ Throughout GuardHistory.step NeverGoesBack (.ofLeases [])
        (lateCalls (some (tenantLease "tenant-b" "core-c" 1))) := by
  have hremoved : ¬ Throughout GuardHistory.step NeverGoesBack (.ofLeases []) (lateCalls none) := by
    refine goes_back_of_between (runFrom_concat_eq_some.2
      ⟨firstAccepted, ?_, step_removal⟩ : runFrom _ _ ([_] ++ [_]) = _) (by simp [firstAccepted]) ?_
    · rw [runFrom_cons, step_firstLease]
      rfl
    · intro existing hcurrent
      change (firstAccepted.guard.leases.erase "orders")["orders"]? = some existing at hcurrent
      rw [lookup_erase, if_pos rfl] at hcurrent
      cases hcurrent
  have hdisplaced : ¬ Throughout GuardHistory.step NeverGoesBack (.ofLeases [])
      (lateCalls (some (tenantLease "tenant-b" "core-c" 1))) := by
    refine goes_back_of_between (runFrom_concat_eq_some.2
      ⟨firstAccepted, ?_, step_otherTenant⟩ : runFrom _ _ ([_] ++ [_]) = _) (by simp [firstAccepted]) ?_
    · rw [runFrom_cons, step_firstLease]
      rfl
    · intro existing hcurrent
      change (firstAccepted.guard.leases.insert "orders" _)["orders"]? = some existing at hcurrent
      rw [lookup_insert, if_pos rfl] at hcurrent
      obtain rfl := Option.some.inj hcurrent
      decide
  exact ⟨fun h => hremoved (h [] (lateCalls none)), hremoved, hdisplaced⟩

end AppCore.ControlPlane
