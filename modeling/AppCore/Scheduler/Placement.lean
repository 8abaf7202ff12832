import AppCore.Base.Selection
import AppCore.ControlPlane.Memory
import AppCore.Dnt.Types

/-!
# Placement

`placement.rs`: a capability invocation is placed on the candidate with the highest score among
those that pass every hard constraint, and of several on the one with the smallest identifier. The
profile a candidate advertises comes first (`policy/profile.rs` of the contracts crate); its role,
its service and its leadership requirement, which placement does not read, are left out. Scores are
`i64` and wrap, as the release build does.

* `selectedCoreId_eq_some_iff` — what is selected, told from the candidates as a set.
-/

namespace AppCore.Contracts

/-! ## Contracts -/

structure CapabilityId where
  asStr : String
  valid : validateContractIdentifier "capability_id" asStr = .ok ()
  deriving DecidableEq

structure ServiceId where
  asStr : String
  valid : validateContractIdentifier "service_id" asStr = .ok ()
  deriving DecidableEq

structure CoreId where
  asStr : String
  valid : validateContractIdentifier "core_id" asStr = .ok ()
  deriving DecidableEq

/-- Identifiers are ordered as their texts. -/
instance : Ord CoreId where
  compare a b := compare a.asStr b.asStr

instance : Std.TransOrd CoreId :=
  inferInstanceAs (Std.TransCmp (compareOn fun id : CoreId => id.asStr))

theorem CoreId.isLE_compare {a b : CoreId} : (compare a b).isLE ↔ a.asStr ≤ b.asStr := by
  change (compare a.asStr b.asStr).isLE ↔ a.asStr ≤ b.asStr
  exact Std.LawfulBCmp.isLE_iff_le

theorem CoreId.eq_of_compare {a b : CoreId} (h : compare a b = .eq) : a = b := by
  have hstr : a.asStr = b.asStr := Std.LawfulEqOrd.eq_of_compare h
  cases a
  cases b
  cases hstr
  rfl

inductive RuntimeMode where
  | standalone
  | cluster
  deriving DecidableEq, Repr

inductive RuntimeHealthStatus where
  | healthy
  | degraded
  | unhealthy
  deriving DecidableEq, Repr

inductive WorkloadClass where
  | general
  | interactive
  | batch
  | compute
  | io
  deriving DecidableEq, Repr

structure ResourceProfile where
  cpuCores : Option UInt16
  memoryBytes : Option UInt64
  gpuCount : UInt16
  deriving DecidableEq, Repr

structure SchedulingProfile where
  weight : UInt16
  priority : Int16
  maxConcurrency : UInt32
  available : Bool
  workload : WorkloadClass
  affinity : Finset String
  deriving DecidableEq

structure CoreProfile where
  capabilities : Finset CapabilityId
  resources : ResourceProfile
  scheduling : SchedulingProfile
  deriving DecidableEq

def allowsLocalQueries (mode : ControlPlane.RuntimeOperationalMode) : Bool :=
  mode = .readOnly ∨ mode = .readWrite ∨ mode = .degraded ∨ mode = .isolated

def allowsWrites (mode : ControlPlane.RuntimeOperationalMode) : Bool := mode = .readWrite

end AppCore.Contracts

namespace AppCore.Scheduler

open Contracts

/-! ## Requests, candidates and decisions -/

structure ResourceRequest where
  cpuCores : Option UInt16
  memoryBytes : Option UInt64
  gpuCount : UInt16
  deriving DecidableEq, Repr

structure PlacementRequest where
  capability : CapabilityId
  serviceId : Contracts.ServiceId
  runtimeMode : RuntimeMode
  requiresWrite : Bool
  requiresLeader : Bool
  workload : WorkloadClass
  affinity : Finset String
  resources : ResourceRequest

structure PlacementCandidate where
  coreId : Contracts.CoreId
  runtimeMode : RuntimeMode
  operationalMode : ControlPlane.RuntimeOperationalMode
  health : RuntimeHealthStatus
  currentLoad : UInt32
  leaderServices : Finset Contracts.ServiceId
  profile : CoreProfile

inductive PlacementRejection where
  | capabilityUnavailable
  | runtimeModeMismatch
  | unhealthy
  | operationalMode
  | unavailable
  | leadershipRequired
  | atCapacity
  | affinityMismatch
  | insufficientCpu
  | insufficientMemory
  | insufficientGpu
  deriving DecidableEq, Repr

structure PlacementEvaluation where
  coreId : Contracts.CoreId
  eligible : Bool
  score : Int64
  rejection : Option PlacementRejection
  deriving DecidableEq

structure PlacementDecision where
  selectedCoreId : Option Contracts.CoreId
  evaluations : List PlacementEvaluation
  deriving DecidableEq

/-! ## Evaluation -/

/-- A required amount that an advertised one falls short of: `required.is_some_and(|required|
advertised.is_none_or(|available| available < required))`. -/
def fallsShort [LT α] [DecidableLT α] (required advertised : Option α) : Bool :=
  required.any fun required => advertised.all fun available => available < required

def rejectionReason (request : PlacementRequest) (candidate : PlacementCandidate) :
    Option PlacementRejection :=
  let scheduling := candidate.profile.scheduling
  let resources := candidate.profile.resources
  if request.capability ∉ candidate.profile.capabilities then some .capabilityUnavailable
  else if candidate.runtimeMode ≠ request.runtimeMode then some .runtimeModeMismatch
  else if candidate.health = .unhealthy then some .unhealthy
  else if !allowsLocalQueries candidate.operationalMode ||
      (request.requiresWrite && !allowsWrites candidate.operationalMode) then
    some .operationalMode
  else if !scheduling.available then some .unavailable
  else if request.requiresLeader ∧ request.serviceId ∉ candidate.leaderServices then
    some .leadershipRequired
  else if candidate.currentLoad ≥ scheduling.maxConcurrency then some .atCapacity
  else if ¬ request.affinity ⊆ scheduling.affinity then some .affinityMismatch
  else if fallsShort request.resources.cpuCores resources.cpuCores then some .insufficientCpu
  else if fallsShort request.resources.memoryBytes resources.memoryBytes then
    some .insufficientMemory
  else if resources.gpuCount < request.resources.gpuCount then some .insufficientGpu
  else none

/-- `u32::saturating_sub`. -/
def saturatingSub32 (a b : UInt32) : UInt32 := if b ≤ a then a - b else 0

/-- The score of health in `evaluate_candidate`. -/
def healthScore : RuntimeHealthStatus → Int64
  | .healthy => 2000
  | .degraded => 250
  | .unhealthy => 0

/-- `i64::try_from(labels).unwrap_or(i64::MAX / 100)`. -/
def affinityLabels (labels : Nat) : Int64 :=
  if labels < 2 ^ 63 then Int64.ofNat labels else Int64.maxValue / 100

/-- The score `evaluate_candidate` gives a candidate without a rejection. -/
def placementScore (request : PlacementRequest) (candidate : PlacementCandidate) : Int64 :=
  let scheduling := candidate.profile.scheduling
  let workloadScore := if scheduling.workload = request.workload then 1000 else 0
  let affinityScore := affinityLabels request.affinity.card * 100
  let spareCapacity := saturatingSub32 scheduling.maxConcurrency candidate.currentLoad
  scheduling.priority.toInt64 * 10000 + Int64.ofNat scheduling.weight.toNat * 100 +
    Int64.ofNat spareCapacity.toNat * 10 + healthScore candidate.health + workloadScore +
    affinityScore

def evaluateCandidate (request : PlacementRequest) (candidate : PlacementCandidate) :
    PlacementEvaluation :=
  match rejectionReason request candidate with
  | some rejection =>
    { coreId := candidate.coreId, eligible := false, score := Int64.minValue,
      rejection := some rejection }
  | none =>
    { coreId := candidate.coreId, eligible := true, score := placementScore request candidate,
      rejection := none }

theorem toInt_add_eq {a b : Int64} {x y : Int} (ha : a.toInt = x) (hb : b.toInt = y)
    (hlow : -2 ^ 63 ≤ x + y) (hhigh : x + y < 2 ^ 63) : (a + b).toInt = x + y := by
  rw [Int64.toInt_add, ha, hb]
  apply Int.bmod_eq_of_le <;> omega

theorem toInt_mul_eq {a b : Int64} {x y : Int} (ha : a.toInt = x) (hb : b.toInt = y)
    (hlow : -2 ^ 63 ≤ x * y) (hhigh : x * y < 2 ^ 63) : (a * b).toInt = x * y := by
  rw [Int64.toInt_mul, ha, hb]
  apply Int.bmod_eq_of_le <;> omega

variable {request : PlacementRequest} {candidate : PlacementCandidate}

/-- No step of the score leaves the `i64` while the labels of the request can be counted with a
hundred points each. -/
theorem toInt_placementScore (hlabels : request.affinity.card ≤ 2 ^ 56) :
    (placementScore request candidate).toInt =
      candidate.profile.scheduling.priority.toInt * 10000 +
        candidate.profile.scheduling.weight.toNat * 100 +
        (saturatingSub32 candidate.profile.scheduling.maxConcurrency
          candidate.currentLoad).toNat * 10 +
        (healthScore candidate.health).toInt +
        (if candidate.profile.scheduling.workload = request.workload then 1000 else 0) +
        request.affinity.card * 100 := by
  have hpriority : candidate.profile.scheduling.priority.toInt64.toInt =
      candidate.profile.scheduling.priority.toInt := by simp
  have hlow := Int16.le_toInt candidate.profile.scheduling.priority
  have hhigh := Int16.toInt_lt candidate.profile.scheduling.priority
  have hweight := Int64.toInt_ofNat_of_lt (n := candidate.profile.scheduling.weight.toNat)
    (Nat.lt_trans (UInt16.toNat_lt _) (by decide))
  have hweightLt := candidate.profile.scheduling.weight.toNat_lt
  simp only [placementScore]
  generalize saturatingSub32 candidate.profile.scheduling.maxConcurrency candidate.currentLoad =
    spare
  have hspare := Int64.toInt_ofNat_of_lt (n := spare.toNat)
    (Nat.lt_trans spare.toNat_lt (by decide))
  have hspareLt := spare.toNat_lt
  have hcard : (affinityLabels request.affinity.card).toInt = request.affinity.card := by
    rw [affinityLabels, if_pos (Nat.lt_of_le_of_lt hlabels (by decide))]
    exact Int64.toInt_ofNat_of_lt (Nat.lt_of_le_of_lt hlabels (by decide))
  have hhealth : 0 ≤ (healthScore candidate.health).toInt ∧
      (healthScore candidate.health).toInt ≤ 2000 := by
    cases candidate.health <;> decide
  have hworkload : (if candidate.profile.scheduling.workload = request.workload then
      (1000 : Int64) else 0).toInt =
        if candidate.profile.scheduling.workload = request.workload then 1000 else 0 := by
    split <;> rfl
  have h10 : Int64.toInt 10 = 10 := rfl
  have h100 : Int64.toInt 100 = 100 := rfl
  have h10000 : Int64.toInt 10000 = 10000 := rfl
  have h₁ := toInt_mul_eq hpriority h10000 (by omega) (by omega)
  have h₂ := toInt_mul_eq hweight h100 (by omega) (by omega)
  have h₃ := toInt_mul_eq hspare h10 (by omega) (by omega)
  have h₄ := toInt_mul_eq hcard h100 (by omega) (by omega)
  have h₅ := toInt_add_eq h₁ h₂ (by omega) (by omega)
  have h₆ := toInt_add_eq h₅ h₃ (by omega) (by omega)
  have h₇ := toInt_add_eq h₆ (rfl : (healthScore candidate.health).toInt = _)
    (by omega) (by omega)
  have h₈ := toInt_add_eq h₇ hworkload (by split <;> omega) (by split <;> omega)
  exact toInt_add_eq h₈ h₄ (by split <;> omega) (by split <;> omega)

theorem eligible_evaluateCandidate :
    (evaluateCandidate request candidate).eligible = true ↔
      rejectionReason request candidate = none := by
  rw [evaluateCandidate]
  split <;> simp [*]

theorem rejection_evaluateCandidate :
    (evaluateCandidate request candidate).rejection = rejectionReason request candidate := by
  rw [evaluateCandidate]
  split <;> simp [*]

@[simp] theorem coreId_evaluateCandidate :
    (evaluateCandidate request candidate).coreId = candidate.coreId := by
  rw [evaluateCandidate]
  split <;> rfl

/-! ## Selection -/

/-- The comparator `select` gives to `max_by`: by score, and of equal scores the smaller identifier
is the greater. -/
def byScore (left right : PlacementEvaluation) : Ordering :=
  (compare left.score right.score).then (compare right.coreId left.coreId)

def PlacementEngine.select (request : PlacementRequest) (candidates : List PlacementCandidate) :
    PlacementDecision :=
  let evaluations := (candidates.map (evaluateCandidate request)).mergeSort
    fun left right => (compare left.coreId right.coreId).isLE
  let selected := maxBy byScore (evaluations.filter (·.eligible))
  { selectedCoreId := selected.map (·.coreId), evaluations }

instance : Std.TransCmp byScore :=
  inferInstanceAs (Std.TransCmp (compareLex (compareOn PlacementEvaluation.score)
    fun left right => compareOn PlacementEvaluation.coreId right left))

/-- An evaluation is at most another when its score is lower, or equal with an identifier that does
not come before the other's. -/
theorem isLE_byScore {left right : PlacementEvaluation} :
    (byScore left right).isLE ↔ left.score < right.score ∨
      left.score = right.score ∧ right.coreId.asStr ≤ left.coreId.asStr := by
  rw [byScore, Ordering.isLE_then_iff_or, Std.compare_eq_lt, Std.compare_eq_iff_eq,
    CoreId.isLE_compare]

theorem coreId_eq_of_byScore {left right : PlacementEvaluation} (h : byScore left right = .eq) :
    left.coreId = right.coreId :=
  (CoreId.eq_of_compare (Ordering.then_eq_eq.1 h).2).symm

variable {candidates : List PlacementCandidate}

theorem mem_evaluations {evaluation : PlacementEvaluation} :
    evaluation ∈ (PlacementEngine.select request candidates).evaluations ↔
      ∃ candidate ∈ candidates, evaluateCandidate request candidate = evaluation := by
  rw [PlacementEngine.select, (List.mergeSort_perm _ _).mem_iff, List.mem_map]

theorem mem_eligible {evaluation : PlacementEvaluation} :
    evaluation ∈ (PlacementEngine.select request candidates).evaluations.filter (·.eligible) ↔
      ∃ candidate ∈ candidates, rejectionReason request candidate = none ∧
        evaluateCandidate request candidate = evaluation := by
  rw [List.mem_filter, mem_evaluations]
  constructor
  · intro h
    obtain ⟨⟨candidate, hmem, heq⟩, heligible⟩ := h
    exact ⟨candidate, hmem, eligible_evaluateCandidate.1 (heq ▸ heligible), heq⟩
  · intro h
    obtain ⟨candidate, hmem, hnone, heq⟩ := h
    exact ⟨⟨candidate, hmem, heq⟩, heq ▸ eligible_evaluateCandidate.2 hnone⟩

/-- What is selected, told from the candidates as a set: the identifier of an eligible one that no
eligible one is above. -/
theorem selectedCoreId_eq_some_iff {id : Contracts.CoreId} :
    (PlacementEngine.select request candidates).selectedCoreId = some id ↔
      ∃ candidate ∈ candidates, rejectionReason request candidate = none ∧ candidate.coreId = id ∧
        ∀ other ∈ candidates, rejectionReason request other = none →
          (byScore (evaluateCandidate request other) (evaluateCandidate request candidate)).isLE := by
  have hselect : (PlacementEngine.select request candidates).selectedCoreId =
      (maxBy byScore ((PlacementEngine.select request candidates).evaluations.filter
        (·.eligible))).map (·.coreId) := rfl
  have hcore (left right : PlacementEvaluation) (h : byScore left right = .eq) :
      left.coreId = right.coreId := coreId_eq_of_byScore h
  rw [hselect, map_maxBy_eq_some_iff hcore]
  constructor
  · intro h
    obtain ⟨evaluation, hmem, hid, hmax⟩ := h
    obtain ⟨candidate, hcandidate, hnone, heq⟩ := mem_eligible.1 hmem
    subst heq
    refine ⟨candidate, hcandidate, hnone, by simpa using hid, ?_⟩
    intro other hother heligible
    exact hmax _ (mem_eligible.2 ⟨other, hother, heligible, rfl⟩)
  · intro h
    obtain ⟨candidate, hcandidate, hnone, hid, hmax⟩ := h
    refine ⟨evaluateCandidate request candidate,
      mem_eligible.2 ⟨candidate, hcandidate, hnone, rfl⟩, by simpa using hid, ?_⟩
    intro evaluation hmem
    obtain ⟨other, hother, heligible, heq⟩ := mem_eligible.1 hmem
    exact heq ▸ hmax other hother heligible

theorem selectedCoreId_eq_none_iff :
    (PlacementEngine.select request candidates).selectedCoreId = none ↔
      ∀ candidate ∈ candidates, rejectionReason request candidate ≠ none := by
  have hselect : (PlacementEngine.select request candidates).selectedCoreId =
      (maxBy byScore ((PlacementEngine.select request candidates).evaluations.filter
        (·.eligible))).map (·.coreId) := rfl
  rw [hselect, Option.map_eq_none_iff, maxBy_eq_none, List.eq_nil_iff_forall_not_mem]
  constructor
  · intro h candidate hcandidate hnone
    exact h _ (mem_eligible.2 ⟨candidate, hcandidate, hnone, rfl⟩)
  · intro h evaluation hmem
    obtain ⟨candidate, hcandidate, hnone, -⟩ := mem_eligible.1 hmem
    exact h candidate hcandidate hnone

/-- Candidates with the same eligible ones among them get the same decision. -/
theorem selectedCoreId_congr {candidates others : List PlacementCandidate}
    (h : ∀ candidate, rejectionReason request candidate = none →
      (candidate ∈ candidates ↔ candidate ∈ others)) :
    (PlacementEngine.select request others).selectedCoreId =
      (PlacementEngine.select request candidates).selectedCoreId := by
  apply Option.ext
  intro id
  rw [selectedCoreId_eq_some_iff, selectedCoreId_eq_some_iff]
  constructor
  · intro hsome
    obtain ⟨candidate, hmem, hnone, hid, hmax⟩ := hsome
    refine ⟨candidate, (h candidate hnone).2 hmem, hnone, hid, ?_⟩
    intro other hother heligible
    exact hmax other ((h other heligible).1 hother) heligible
  · intro hsome
    obtain ⟨candidate, hmem, hnone, hid, hmax⟩ := hsome
    refine ⟨candidate, (h candidate hnone).1 hmem, hnone, hid, ?_⟩
    intro other hother heligible
    exact hmax other ((h other heligible).2 hother) heligible

/-- Placement is optimal, and does not depend on the order of the candidates or on those that are
rejected. -/
theorem PlacementEngine.select_optimal (request : PlacementRequest)
    (candidates : List PlacementCandidate) :
    ((PlacementEngine.select request candidates).selectedCoreId = none ↔
      ∀ candidate ∈ candidates, (evaluateCandidate request candidate).rejection ≠ none) ∧
    (∀ id, (PlacementEngine.select request candidates).selectedCoreId = some id →
      ∃ candidate ∈ candidates, candidate.coreId = id ∧
        (evaluateCandidate request candidate).eligible = true ∧
        ∀ other ∈ candidates, (evaluateCandidate request other).eligible = true →
          (evaluateCandidate request other).score ≤ (evaluateCandidate request candidate).score ∧
          ((evaluateCandidate request other).score = (evaluateCandidate request candidate).score →
            id.asStr ≤ other.coreId.asStr)) ∧
    (∀ others, others.Perm candidates →
      (PlacementEngine.select request others).selectedCoreId =
        (PlacementEngine.select request candidates).selectedCoreId) ∧
    (∀ others,
      others.filter (fun candidate => (evaluateCandidate request candidate).eligible) =
        candidates.filter (fun candidate => (evaluateCandidate request candidate).eligible) →
      (PlacementEngine.select request others).selectedCoreId =
        (PlacementEngine.select request candidates).selectedCoreId) := by
  refine ⟨?_, ?_, ?_, ?_⟩
  · simp only [rejection_evaluateCandidate, selectedCoreId_eq_none_iff]
  · intro id hid
    obtain ⟨candidate, hmem, hnone, hcore, hmax⟩ := selectedCoreId_eq_some_iff.1 hid
    refine ⟨candidate, hmem, hcore, eligible_evaluateCandidate.2 hnone, ?_⟩
    intro other hother heligible
    have hle := isLE_byScore.1 (hmax other hother (eligible_evaluateCandidate.1 heligible))
    rw [coreId_evaluateCandidate, coreId_evaluateCandidate, hcore] at hle
    rcases hle with hlt | ⟨heq, hsmall⟩
    · constructor
      · exact Int64.le_of_lt hlt
      · intro heq
        exact absurd (heq ▸ hlt) Int64.lt_irrefl
    · exact ⟨Int64.le_of_eq heq, fun _ => hsmall⟩
  · intro others hperm
    apply selectedCoreId_congr
    intro candidate _
    exact hperm.mem_iff.symm
  · intro others hfilter
    apply selectedCoreId_congr
    intro candidate hnone
    have hmem : candidate ∈ others.filter (fun c => (evaluateCandidate request c).eligible) ↔
        candidate ∈ candidates.filter (fun c => (evaluateCandidate request c).eligible) := by
      rw [hfilter]
    simpa [List.mem_filter, eligible_evaluateCandidate.2 hnone] using hmem.symm

end AppCore.Scheduler
