import AppCore.PeerRpc.NonceFile

/-!
# Live nonces are never forgotten

`replay.rs`: a store with a capacity, a longest time to keep a nonce and an interval for its
cleanups. It keeps a map of the nonces and a queue of them, the one touched last at the end.

`NeverForgets` is the law of all three stores: a nonce that was accepted is rejected by every call
before its expiry, whatever calls come in between.

* `never_forgets` — the law, and the bound on the entries, for the three stores.
-/

namespace AppCore.PeerRpc

structure ReplayStoreConfig where
  maxEntries : UInt64
  ttlMs : UInt64
  cleanupIntervalMs : UInt64
  deriving DecidableEq

def ReplayStoreConfig.new (maxEntries ttlMs cleanupIntervalMs : UInt64) :
    Except PeerRpcError ReplayStoreConfig :=
  if maxEntries = 0 ∨ ttlMs = 0 ∨ cleanupIntervalMs = 0 then
    .error (.invalidEnvelope "replay_store_policy_invalid")
  else .ok ⟨maxEntries, ttlMs, cleanupIntervalMs⟩

def ReplayStoreConfig.default : ReplayStoreConfig :=
  ⟨UInt64.ofNat maxNonceCacheEntries, 60000, 1000⟩

structure ReplayStoreMetrics where
  entries : Nat
  accepted : UInt64
  replays : UInt64
  expired : UInt64
  capacityRejections : UInt64
  cleanups : UInt64
  deriving DecidableEq

structure ReplayState where
  entries : NonceMap
  lru : List String
  lastCleanupMs : UInt64
  metrics : ReplayStoreMetrics

structure BoundedReplayStore where
  config : ReplayStoreConfig
  state : ReplayState

namespace BoundedReplayStore

def new (config : ReplayStoreConfig) : BoundedReplayStore :=
  ⟨config, ⟨∅, [], 0, ⟨0, 0, 0, 0, 0, 0⟩⟩⟩

/-- `cleanup_locked`: the state, and the number of entries it removed. -/
def cleanupLocked (state : ReplayState) (nowMs : UInt64) : ReplayState × Nat :=
  let entries := state.entries.filter fun _ expiry => decide (expiry > nowMs)
  let removed := state.entries.size - entries.size
  (⟨entries, state.lru.filter entries.contains, nowMs,
    { state.metrics with
      expired := saturatingAdd state.metrics.expired (UInt64.ofNat removed)
      cleanups := saturatingAdd state.metrics.cleanups 1
      entries := entries.size }⟩, removed)

def cleanupIfDue (config : ReplayStoreConfig) (state : ReplayState) (nowMs : UInt64) :
    ReplayState :=
  if saturatingSub nowMs state.lastCleanupMs ≥ config.cleanupIntervalMs then
    (cleanupLocked state nowMs).1
  else state

def touchLru (lru : List String) (identity : String) : List String :=
  lru.erase identity ++ [identity]

/-- The effective expiry of a nonce. -/
def effectiveExpiry (config : ReplayStoreConfig) (expiresAtMs nowMs : UInt64) : UInt64 :=
  min expiresAtMs (saturatingAdd nowMs config.ttlMs)

/-- The end of `check_and_record`: the nonce is recorded. -/
def record (config : ReplayStoreConfig) (state : ReplayState) (nonce : String)
    (expiresAtMs nowMs : UInt64) : ReplayState :=
  let entries := state.entries.insert nonce (effectiveExpiry config expiresAtMs nowMs)
  { state with
    entries
    lru := state.lru ++ [nonce]
    metrics := { state.metrics with
      accepted := saturatingAdd state.metrics.accepted 1
      entries := entries.size } }

/-- `check_and_record` after the cleanup that is due. -/
def checkLocked (config : ReplayStoreConfig) (state : ReplayState) (nonce : String)
    (expiresAtMs nowMs : UInt64) : PeerRpcResult × ReplayState :=
  if state.entries.contains nonce then
    (.error .nonceReplay, { state with
      lru := touchLru state.lru nonce
      metrics := { state.metrics with replays := saturatingAdd state.metrics.replays 1 } })
  else if state.entries.size ≥ config.maxEntries.toNat then
    let state := (cleanupLocked state nowMs).1
    if state.entries.size ≥ config.maxEntries.toNat then
      (.error .nonceCacheFull, { state with metrics := { state.metrics with
        capacityRejections := saturatingAdd state.metrics.capacityRejections 1 } })
    else (.ok (), record config state nonce expiresAtMs nowMs)
  else (.ok (), record config state nonce expiresAtMs nowMs)

instance : PeerNonceStore BoundedReplayStore where
  checkAndRecord store nonce expiresAtMs nowMs :=
    if nonce.isEmpty ∨ expiresAtMs ≤ nowMs then
      (.error (.invalidEnvelope "replay_identity_invalid"), store)
    else
      let (result, state) := checkLocked store.config
        (cleanupIfDue store.config store.state nowMs) nonce expiresAtMs nowMs
      (result, { store with state })

def cleanup (store : BoundedReplayStore) (nowMs : UInt64) : Nat × BoundedReplayStore :=
  let (state, removed) := cleanupLocked store.state nowMs
  (removed, { store with state })

end BoundedReplayStore

section Runs

variable {S C : Type}

def runStore (step : S → C → PeerRpcResult × S) (store : S) (calls : List C) : S :=
  calls.foldl (fun store call => (step store call).2) store

/-- **A live nonce is never forgotten.** In a run of calls at times that never go back, a call with a
nonce that was accepted before is not, while it comes before the expiry of the nonce. `records` says
which nonce a call records, and until when. -/
def NeverForgets (step : S → C → PeerRpcResult × S) (nowMs : C → UInt64)
    (records : C → Option (String × UInt64)) (store : S) : Prop :=
  ∀ (before : List C) (call : C) (between : List C) (later : C) (nonce : String)
    (expiry laterExpiry : UInt64),
    ((before ++ call :: between ++ [later]).map nowMs).Pairwise (· ≤ ·) →
    records call = some (nonce, expiry) → records later = some (nonce, laterExpiry) →
    (step (runStore step store before) call).1 = .ok () → nowMs later < expiry →
    (step (runStore step store (before ++ call :: between)) later).1 ≠ .ok ()

/-- A store that holds on to what it recorded never forgets it. -/
theorem neverForgets_of_held {step : S → C → PeerRpcResult × S} {nowMs : C → UInt64}
    {records : C → Option (String × UInt64)} (valid : S → Prop)
    (hvalid : ∀ s c, valid s → valid (step s c).2) (held : S → String → UInt64 → Prop)
    (hrecord : ∀ s c nonce expiry, valid s → records c = some (nonce, expiry) →
      (step s c).1 = .ok () → held (step s c).2 nonce expiry)
    (hkeep : ∀ s c nonce expiry, held s nonce expiry → nowMs c < expiry →
      held (step s c).2 nonce expiry)
    (hreject : ∀ s c nonce expiry laterExpiry, held s nonce expiry →
      records c = some (nonce, laterExpiry) → nowMs c < expiry → (step s c).1 ≠ .ok ())
    {store : S} (hstore : valid store) : NeverForgets step nowMs records store := by
  intro before call between later nonce expiry laterExpiry hmono hcall hlater hok hlive
  have hbefore : valid (runStore step store before) :=
    List.foldlRecOn before _ hstore fun s hs c _ => hvalid s c hs
  have hheld := hrecord _ call nonce expiry hbefore hcall hok
  rw [List.append_assoc, List.map_append, List.pairwise_append, List.cons_append,
    List.map_cons, List.pairwise_cons, List.map_append, List.pairwise_append] at hmono
  obtain ⟨-, ⟨-, -, -, hlast⟩, -⟩ := hmono
  have hbetween : ∀ c ∈ between, nowMs c < expiry := fun c hc =>
    UInt64.lt_of_le_of_lt (hlast _ (List.mem_map_of_mem hc) _ (by simp)) hlive
  have hkept : held (runStore step (step (runStore step store before) call).2 between)
      nonce expiry := by
    clear hlast hok
    generalize (step (runStore step store before) call).2 = s at hheld
    induction between generalizing s with
    | nil => exact hheld
    | cons c between ih =>
      exact ih (fun c' hc' => hbetween c' (List.mem_cons_of_mem _ hc')) _
        (hkeep s c nonce expiry hheld (hbetween c List.mem_cons_self))
  have hrun : runStore step store (before ++ call :: between) =
      runStore step (step (runStore step store before) call).2 between := by
    rw [runStore, List.foldl_append, List.foldl_cons]
    rfl
  rw [hrun]
  exact hreject _ later nonce expiry laterExpiry hkept hlater hlive

end Runs

/-! ## The stores without a cleanup -/

/-- A call of `check_and_record`. -/
structure NonceCall where
  nonce : String
  expiresAtMs : UInt64
  nowMs : UInt64

def NonceCall.step {S : Type} [PeerNonceStore S] (store : S) (call : NonceCall) :
    PeerRpcResult × S :=
  checkAndRecord store call.nonce call.expiresAtMs call.nowMs

def NonceCall.records (call : NonceCall) : Option (String × UInt64) :=
  some (call.nonce, call.expiresAtMs)

open RemembersNonces in
theorem neverForgets_remembersNonces {S : Type} [PeerNonceStore S] [RemembersNonces S] (store : S) :
    NeverForgets NonceCall.step NonceCall.nowMs NonceCall.records store := by
  refine neverForgets_of_held (fun _ => True) (fun _ _ _ => trivial) held ?_ ?_ ?_ trivial
  · rintro s ⟨nonce, expiry, now⟩ _ _ _ ⟨⟩ hok
    exact record hok
  · rintro s ⟨other, otherExpiry, now⟩ nonce expiry hheld hlive
    exact keep other otherExpiry now hheld hlive
  · rintro s ⟨nonce, expiry, now⟩ _ _ _ hheld ⟨⟩ hlive
    exact reject _ now hheld hlive

theorem size_retainMemory_le (nowMs : UInt64) (seen : NonceMap) (order : List String) :
    (retainMemory nowMs seen order).seen.size ≤ seen.size := by
  induction order generalizing seen with
  | nil => exact Nat.le_refl _
  | cons front rest ih =>
    rw [retainMemory]
    split
    · exact (ih _).trans Std.ExtTreeMap.size_erase_le
    · exact Nat.le_refl _

/-- The process-local store is within its capacity. -/
theorem size_inMemory_le (calls : List NonceCall) :
    (runStore NonceCall.step InMemoryPeerNonceStore.new calls).seen.size ≤
      maxNonceCacheEntries := by
  induction calls using List.reverseRecOn with
  | nil =>
    rw [runStore, List.foldl_nil, InMemoryPeerNonceStore.new, Std.ExtTreeMap.size_empty]
    exact Nat.zero_le _
  | append_singleton calls call ih =>
    rw [runStore, List.foldl_append, List.foldl_cons, List.foldl_nil, ← runStore]
    generalize runStore NonceCall.step InMemoryPeerNonceStore.new calls = store at ih
    have hretain := (size_retainMemory_le call.nowMs store.seen store.order).trans ih
    have hinsert : ((retainMemory call.nowMs store.seen store.order).seen.insert call.nonce
        call.expiresAtMs).size ≤ _ := Std.ExtTreeMap.size_insert_le
    simp only [NonceCall.step, checkAndRecord]
    split
    · exact hretain
    split
    · exact hretain
    · dsimp only
      omega

/-- The entries in the state file are within the capacity. -/
def FilePeerNonceStore.Bounded [Codec PersistedNonceState] (store : FilePeerNonceStore) : Prop :=
  ∀ bytes state, store.file = some bytes → Codec.decode bytes = some (state : PersistedNonceState) →
    state.entries.size ≤ maxNonceCacheEntries

/-- The durable store is within its capacity. -/
theorem bounded_file [Codec PersistedNonceState] (calls : List NonceCall) :
    (runStore NonceCall.step FilePeerNonceStore.new calls).Bounded := by
  induction calls using List.reverseRecOn with
  | nil =>
    intro bytes state hfile
    cases hfile
  | append_singleton calls call ih =>
    rw [runStore, List.foldl_append, List.foldl_cons, List.foldl_nil, ← runStore]
    generalize runStore NonceCall.step FilePeerNonceStore.new calls = store at ih
    simp only [NonceCall.step, checkAndRecord]
    split
    · exact ih
    split
    · exact ih
    split
    · exact ih
    · rename_i state _ _ hroom
      intro bytes state' hfile hdecode
      obtain rfl := Option.some.inj hfile
      rw [Codec.decode_encode] at hdecode
      obtain rfl := Option.some.inj hdecode
      have hinsert : ((state.entries.filter fun _ storedExpiry => decide (storedExpiry >
          call.nowMs)).insert call.nonce call.expiresAtMs).size ≤ _ :=
        Std.ExtTreeMap.size_insert_le
      dsimp only
      omega

/-! ## The bounded store -/

/-- A call of the bounded store. -/
inductive StoreCall where
  | checkAndRecord (nonce : String) (expiresAtMs nowMs : UInt64)
  | cleanup (nowMs : UInt64)

/-- The time of a call. -/
def StoreCall.nowMs : StoreCall → UInt64
  | .checkAndRecord _ _ nowMs => nowMs
  | .cleanup nowMs => nowMs

/-- The nonce a call records, until its effective expiry. -/
def StoreCall.records (config : ReplayStoreConfig) : StoreCall → Option (String × UInt64)
  | .checkAndRecord nonce expiresAtMs nowMs =>
    some (nonce, BoundedReplayStore.effectiveExpiry config expiresAtMs nowMs)
  | .cleanup _ => none

namespace BoundedReplayStore

def step (store : BoundedReplayStore) : StoreCall → PeerRpcResult × BoundedReplayStore
  | .checkAndRecord nonce expiresAtMs nowMs => PeerNonceStore.checkAndRecord store nonce expiresAtMs nowMs
  | .cleanup nowMs => (.ok (), (store.cleanup nowMs).2)

/-- How many identities the calls of a run recorded. -/
def acceptedCalls (store : BoundedReplayStore) : List StoreCall → Nat
  | [] => 0
  | call :: calls =>
    (if call.records store.config ≠ none ∧ (store.step call).1 = .ok () then 1 else 0) +
      acceptedCalls (store.step call).2 calls

/-- The queue lists the stored keys, the entries are within the capacity, and the counters are those
of `total` identities, as far as they can count. -/
structure Consistent (config : ReplayStoreConfig) (total : Nat) (state : ReplayState) : Prop where
  nodup : state.lru.Nodup
  keys : ∀ identity, identity ∈ state.lru ↔ state.entries.contains identity = true
  size : state.entries.size ≤ config.maxEntries.toNat
  entries : state.metrics.entries = state.entries.size
  accepted : state.metrics.accepted.toNat = min total (2 ^ 64 - 1)
  expired : ∃ expired, total = state.entries.size + expired ∧
    state.metrics.expired.toNat = min expired (2 ^ 64 - 1)

variable {config : ReplayStoreConfig} {total : Nat} {state : ReplayState}

theorem Consistent.cleanupLocked (h : Consistent config total state) (nowMs : UInt64) :
    Consistent config total (cleanupLocked state nowMs).1 := by
  have hle : (state.entries.filter fun _ expiry => decide (expiry > nowMs)).size ≤
      state.entries.size := Std.ExtTreeMap.size_filter_le_size
  have hbound := config.maxEntries.toNat_lt
  have hsize := h.size
  obtain ⟨expired, htotal, hcount⟩ := h.expired
  refine ⟨h.nodup.filter _, fun identity => ?_, hle.trans h.size, rfl, h.accepted, ?_⟩
  · rw [BoundedReplayStore.cleanupLocked, List.mem_filter, h.keys]
    refine and_iff_right_of_imp fun hkept => ?_
    exact Std.ExtTreeMap.contains_of_contains_filter hkept
  · refine ⟨expired + (state.entries.size - (state.entries.filter fun _ expiry =>
      decide (expiry > nowMs)).size), ?_, ?_⟩
    · simp only [BoundedReplayStore.cleanupLocked]
      omega
    · have hfits : state.entries.size - (state.entries.filter fun _ expiry =>
          decide (expiry > nowMs)).size < UInt64.size := by
        rw [show UInt64.size = 2 ^ 64 from rfl]
        omega
      simp only [BoundedReplayStore.cleanupLocked, toNat_saturatingAdd, hcount]
      rw [UInt64.toNat_ofNat_of_lt' hfits]
      omega

theorem Consistent.record (h : Consistent config total state) {nonce : String}
    (hnew : ¬ state.entries.contains nonce = true)
    (hroom : ¬ state.entries.size ≥ config.maxEntries.toNat) (expiresAtMs nowMs : UInt64) :
    Consistent config (total + 1) (record config state nonce expiresAtMs nowMs) := by
  obtain ⟨expired, htotal, hcount⟩ := h.expired
  have hsize : (state.entries.insert nonce (effectiveExpiry config expiresAtMs nowMs)).size =
      state.entries.size + 1 := by
    rw [Std.ExtTreeMap.size_insert, if_neg hnew]
  refine ⟨?_, fun identity => ?_, ?_, rfl, ?_, expired, ?_, hcount⟩
  · refine h.nodup.append (List.nodup_singleton nonce) ?_
    rw [List.disjoint_singleton, h.keys]
    exact hnew
  · rw [BoundedReplayStore.record, List.mem_append, h.keys, List.mem_singleton,
      Std.ExtTreeMap.contains_insert, Bool.or_eq_true, beq_iff_eq,
      Std.LawfulEqCmp.compare_eq_iff_eq]
    exact or_comm.trans (or_congr_left eq_comm)
  · simp only [BoundedReplayStore.record, hsize]
    omega
  · have hone : (1 : UInt64).toNat = 1 := rfl
    simp only [BoundedReplayStore.record, toNat_saturatingAdd, h.accepted, hone]
    omega
  · simp only [BoundedReplayStore.record, hsize]
    omega

theorem Consistent.touch (h : Consistent config total state) {nonce : String}
    (hstored : state.entries.contains nonce = true) (metrics : ReplayStoreMetrics)
    (hentries : metrics.entries = state.metrics.entries)
    (haccepted : metrics.accepted = state.metrics.accepted)
    (hexpired : metrics.expired = state.metrics.expired) :
    Consistent config total { state with lru := touchLru state.lru nonce, metrics } := by
  refine ⟨?_, fun identity => ?_, h.size, hentries.trans h.entries, haccepted ▸ h.accepted,
    hexpired ▸ h.expired⟩
  · refine (h.nodup.erase nonce).append (List.nodup_singleton nonce) ?_
    rw [List.disjoint_singleton]
    exact h.nodup.not_mem_erase
  · rw [touchLru, List.mem_append, List.mem_singleton, h.nodup.mem_erase_iff, ← h.keys]
    have hmem := (h.keys nonce).2 hstored
    by_cases heq : identity = nonce
    · simp [heq, hmem]
    · simp [heq]

theorem Consistent.cleanupIfDue (h : Consistent config total state) (nowMs : UInt64) :
    Consistent config total (cleanupIfDue config state nowMs) := by
  rw [BoundedReplayStore.cleanupIfDue]
  split
  · exact h.cleanupLocked nowMs
  · exact h

/-- A check keeps the store consistent, and counts the identity it records. -/
theorem Consistent.checkLocked (h : Consistent config total state) (nonce : String)
    (expiresAtMs nowMs : UInt64) :
    Consistent config
      (total + if (checkLocked config state nonce expiresAtMs nowMs).1 = .ok () then 1 else 0)
      (checkLocked config state nonce expiresAtMs nowMs).2 := by
  rw [BoundedReplayStore.checkLocked]
  split
  · rename_i hstored
    rw [if_neg (by simp), Nat.add_zero]
    exact h.touch hstored _ rfl rfl rfl
  · rename_i hnew
    split
    · have hclean := h.cleanupLocked nowMs
      have hnew' : ¬ (BoundedReplayStore.cleanupLocked state nowMs).1.entries.contains nonce = true :=
        fun hstored => hnew (Std.ExtTreeMap.contains_of_contains_filter hstored)
      dsimp only
      split
      · rw [if_neg (by simp), Nat.add_zero]
        exact ⟨hclean.nodup, hclean.keys, hclean.size, hclean.entries, hclean.accepted,
          hclean.expired⟩
      · rename_i hroom
        rw [if_pos rfl]
        exact hclean.record hnew' hroom expiresAtMs nowMs
    · rename_i hroom
      rw [if_pos rfl]
      exact h.record hnew hroom expiresAtMs nowMs

theorem Consistent.step {store : BoundedReplayStore}
    (h : Consistent store.config total store.state) (call : StoreCall) :
    (store.step call).2.config = store.config ∧ Consistent store.config
      (total + if call.records store.config ≠ none ∧ (store.step call).1 = .ok () then 1 else 0)
      (store.step call).2.state := by
  cases call with
  | cleanup nowMs =>
    refine ⟨rfl, ?_⟩
    rw [if_neg (by simp [StoreCall.records]), Nat.add_zero]
    exact h.cleanupLocked nowMs
  | checkAndRecord nonce expiresAtMs nowMs =>
    simp only [BoundedReplayStore.step, checkAndRecord]
    split
    · refine ⟨rfl, ?_⟩
      rw [if_neg (by simp), Nat.add_zero]
      exact h
    · refine ⟨rfl, ?_⟩
      have hcheck := (h.cleanupIfDue nowMs).checkLocked nonce expiresAtMs nowMs
      simpa [StoreCall.records] using hcheck

theorem Consistent.run {store : BoundedReplayStore}
    (h : Consistent store.config total store.state) (calls : List StoreCall) :
    Consistent store.config (total + acceptedCalls store calls)
      (runStore BoundedReplayStore.step store calls).state := by
  induction calls generalizing store total with
  | nil => exact h
  | cons call calls ih =>
    obtain ⟨hconfig, hstep⟩ := h.step call
    have hrest := ih (hconfig ▸ hstep)
    rw [hconfig, Nat.add_assoc] at hrest
    exact hrest

theorem consistent_new (config : ReplayStoreConfig) :
    Consistent config 0 (new config).state := by
  refine ⟨List.nodup_nil, fun identity => ?_, ?_, rfl, rfl, 0, ?_, rfl⟩
  · simp [new]
  · rw [new, Std.ExtTreeMap.size_empty]
    exact Nat.zero_le _
  · rw [new, Std.ExtTreeMap.size_empty]

/-! ## What the bounded store remembers -/

theorem getElem?_cleanupIfDue {nonce : String} {expiry nowMs : UInt64}
    (h : state.entries[nonce]? = some expiry) (hlive : nowMs < expiry) :
    (cleanupIfDue config state nowMs).entries[nonce]? = some expiry := by
  rw [cleanupIfDue]
  split
  · exact getElem?_filter_live h hlive
  · exact h

theorem getElem?_checkLocked {nonce other : String} {expiry expiresAtMs nowMs : UInt64}
    (h : state.entries[nonce]? = some expiry) (hlive : nowMs < expiry) :
    (checkLocked config state other expiresAtMs nowMs).2.entries[nonce]? = some expiry := by
  rw [checkLocked]
  split
  · exact h
  · rename_i hnew
    split
    · have hkept : (cleanupLocked state nowMs).1.entries[nonce]? = some expiry :=
        getElem?_filter_live h hlive
      dsimp only
      split
      · exact hkept
      · exact getElem?_insert_of_not_contains hkept fun hstored =>
          hnew (Std.ExtTreeMap.contains_of_contains_filter hstored)
    · exact getElem?_insert_of_not_contains h hnew

theorem step_config (store : BoundedReplayStore) (call : StoreCall) :
    (store.step call).2.config = store.config := by
  cases call with
  | cleanup nowMs => rfl
  | checkAndRecord nonce expiresAtMs nowMs =>
    simp only [step, checkAndRecord]
    split <;> rfl

/-- What an accepted call records. -/
theorem getElem?_record {store : BoundedReplayStore} {nonce : String} {expiresAtMs nowMs : UInt64}
    (hok : (store.step (.checkAndRecord nonce expiresAtMs nowMs)).1 = .ok ()) :
    (store.step (.checkAndRecord nonce expiresAtMs nowMs)).2.state.entries[nonce]? =
      some (effectiveExpiry store.config expiresAtMs nowMs) := by
  simp only [step, checkAndRecord] at hok ⊢
  split at hok
  · cases hok
  · rename_i hvalid
    rw [if_neg hvalid]
    dsimp only at hok ⊢
    rw [checkLocked] at hok ⊢
    split at hok
    · cases hok
    · rename_i hnew
      rw [if_neg hnew]
      split at hok
      · rename_i hfull
        rw [if_pos hfull]
        dsimp only at hok ⊢
        split at hok
        · cases hok
        · rename_i hroom
          rw [if_neg hroom]
          exact Std.ExtTreeMap.getElem?_insert_self
      · rename_i hroom
        rw [if_neg hroom]
        exact Std.ExtTreeMap.getElem?_insert_self

theorem neverForgets (config : ReplayStoreConfig) :
    NeverForgets step StoreCall.nowMs (StoreCall.records config) (new config) := by
  refine neverForgets_of_held (fun store => store.config = config)
    (fun store call h => (step_config store call).trans h)
    (fun store nonce expiry => store.state.entries[nonce]? = some expiry) ?_ ?_ ?_ rfl
  · rintro store (⟨nonce, expiresAtMs, nowMs⟩ | nowMs) _ _ rfl ⟨⟩ hok
    exact getElem?_record hok
  · rintro store (⟨other, expiresAtMs, nowMs⟩ | nowMs) nonce expiry hheld hlive
    · simp only [step, checkAndRecord]
      split
      · exact hheld
      · exact getElem?_checkLocked (getElem?_cleanupIfDue hheld hlive) hlive
    · exact getElem?_filter_live hheld hlive
  · rintro store (⟨nonce, expiresAtMs, nowMs⟩ | nowMs) _ expiry _ hheld ⟨⟩ hlive
    change nowMs < expiry at hlive
    simp only [step, checkAndRecord]
    split
    · simp
    · have hkept : (cleanupIfDue store.config store.state nowMs).entries[nonce]? = some expiry :=
        getElem?_cleanupIfDue hheld hlive
      dsimp only
      rw [checkLocked, if_pos (contains_of_getElem? hkept)]
      simp

end BoundedReplayStore

open BoundedReplayStore

/-- **Live nonces are never forgotten** by any of the three stores, none stores more entries than
its capacity, and the bounded store's queue and metrics are those of its map: the entries are the
accepted identities without the expired ones, as long as the counters can count them. -/
theorem live_nonces [Codec PersistedNonceState] (config : ReplayStoreConfig) :
    (NeverForgets NonceCall.step NonceCall.nowMs NonceCall.records InMemoryPeerNonceStore.new ∧
      ∀ calls, (runStore NonceCall.step InMemoryPeerNonceStore.new calls).seen.size ≤
        maxNonceCacheEntries) ∧
    (NeverForgets NonceCall.step NonceCall.nowMs NonceCall.records FilePeerNonceStore.new ∧
      ∀ calls, (runStore NonceCall.step FilePeerNonceStore.new calls).Bounded) ∧
    NeverForgets BoundedReplayStore.step StoreCall.nowMs (StoreCall.records config) (new config) ∧
    ∀ calls state, (runStore BoundedReplayStore.step (new config) calls).state = state →
      state.entries.size ≤ config.maxEntries.toNat ∧ state.lru.Nodup ∧
      (∀ identity, identity ∈ state.lru ↔ state.entries.contains identity = true) ∧
      state.metrics.entries = state.entries.size ∧
      (acceptedCalls (new config) calls < 2 ^ 64 →
        state.metrics.entries + state.metrics.expired.toNat = state.metrics.accepted.toNat) := by
  refine ⟨⟨neverForgets_remembersNonces _, size_inMemory_le⟩,
    ⟨neverForgets_remembersNonces _, bounded_file⟩, neverForgets config, ?_⟩
  rintro calls _ rfl
  have hnew : Consistent (new config).config 0 (new config).state := consistent_new config
  have h := hnew.run calls
  rw [Nat.zero_add] at h
  refine ⟨h.size, h.nodup, h.keys, h.entries, fun hcount => ?_⟩
  obtain ⟨expired, htotal, hexpired⟩ := h.expired
  rw [h.entries, h.accepted, hexpired]
  omega

theorem live_nonces_replayed : ∃ codec : Codec PersistedNonceState, codec = nonceStateJson ∧
    (NonceCall.step (runStore NonceCall.step FilePeerNonceStore.new [⟨"n", 10, 1⟩])
      ⟨"n", 12, 5⟩).1 ≠ .ok () ∧
    ((runStore BoundedReplayStore.step (new ⟨2, 4, 1⟩) [.checkAndRecord "n" 10 1]).step
      (.checkAndRecord "n" 12 4)).1 ≠ .ok () := by
  let _ := nonceStateJson
  obtain ⟨-, ⟨hfile, -⟩, hbounded, -⟩ := live_nonces ⟨2, 4, 1⟩
  refine ⟨nonceStateJson, rfl, ?_, ?_⟩
  · exact hfile [] ⟨"n", 10, 1⟩ [] ⟨"n", 12, 5⟩ "n" 10 12 (by decide) rfl rfl (by decide)
      (by decide)
  · exact hbounded [] (.checkAndRecord "n" 10 1) [] (.checkAndRecord "n" 12 4) "n" 5 8 (by decide)
      rfl rfl (by decide) (by decide)

/-! ## Counters that are full -/

/-- Two nonces a millisecond. -/
def round (t : Nat) : List StoreCall :=
  [.checkAndRecord "a" (UInt64.ofNat (t + 1)) (UInt64.ofNat t),
    .checkAndRecord "b" (UInt64.ofNat (t + 1)) (UInt64.ofNat t)]

/-- So many rounds. -/
def rounds (n : Nat) : List StoreCall := (List.range n).flatMap round

/-- A store for two nonces, that are kept for a millisecond. -/
def twoNonces : ReplayStoreConfig := ⟨2, 1, 1⟩

/-- A store whose entries are all expired at a time. -/
structure Ready (t : Nat) (store : BoundedReplayStore) : Prop where
  config : store.config = twoNonces
  entries : (cleanupIfDue twoNonces store.state (UInt64.ofNat t)).entries = ∅
  lastCleanupMs : (cleanupIfDue twoNonces store.state (UInt64.ofNat t)).lastCleanupMs =
    UInt64.ofNat t

theorem ready_new : Ready 0 (new twoNonces) := ⟨rfl, rfl, rfl⟩

theorem step_record {config : ReplayStoreConfig} {state empty : ReplayState} {nonce : String}
    {expiresAtMs nowMs : UInt64} (hnonce : nonce.isEmpty = false) (hlive : nowMs < expiresAtMs)
    (hclean : cleanupIfDue config state nowMs = empty)
    (hnew : ¬ empty.entries.contains nonce = true)
    (hroom : empty.entries.size < config.maxEntries.toNat) :
    BoundedReplayStore.step ⟨config, state⟩ (.checkAndRecord nonce expiresAtMs nowMs) =
      (.ok (), ⟨config, record config empty nonce expiresAtMs nowMs⟩) := by
  have hvalid : ¬ (nonce.isEmpty = true ∨ expiresAtMs ≤ nowMs) := by
    rw [hnonce, not_or, UInt64.not_le]
    exact ⟨by decide, hlive⟩
  simp only [BoundedReplayStore.step, checkAndRecord, if_neg hvalid, hclean, checkLocked,
    if_neg hnew, if_neg (Nat.not_le.2 hroom)]

theorem Ready.round {t : Nat} {store : BoundedReplayStore} (h : Ready t store)
    (ht : t + 1 < 2 ^ 64) :
    acceptedCalls store (round t) = 2 ∧
      (runStore BoundedReplayStore.step store (PeerRpc.round t)).state.entries.size = 2 ∧
      Ready (t + 1) (runStore BoundedReplayStore.step store (PeerRpc.round t)) := by
  obtain ⟨config, state⟩ := store
  obtain ⟨hconfig, hentries, hlast⟩ := h
  obtain rfl : config = twoNonces := hconfig
  dsimp only at hentries hlast
  have hsize : UInt64.size = 2 ^ 64 := rfl
  have hnow : (UInt64.ofNat t).toNat = t := UInt64.toNat_ofNat_of_lt' (by omega)
  have hnext : (UInt64.ofNat (t + 1)).toNat = t + 1 := UInt64.toNat_ofNat_of_lt' (by omega)
  have hlive : UInt64.ofNat t < UInt64.ofNat (t + 1) := by
    rw [UInt64.lt_iff_toNat_lt]
    omega
  have hexpiry : effectiveExpiry twoNonces (UInt64.ofNat (t + 1)) (UInt64.ofNat t) =
      UInt64.ofNat (t + 1) := by
    have hwindow : UInt64.ofNat (t + 1) ≤ saturatingAdd (UInt64.ofNat t) twoNonces.ttlMs := by
      have hone : twoNonces.ttlMs.toNat = 1 := rfl
      rw [UInt64.le_iff_toNat_le, toNat_saturatingAdd, hone]
      omega
    exact if_pos hwindow
  -- The first nonce finds an empty store, the second one with the first in it.
  generalize hclean : cleanupIfDue twoNonces state (UInt64.ofNat t) = empty at hentries hlast
  have hfirst : BoundedReplayStore.step ⟨twoNonces, state⟩
      (.checkAndRecord "a" (UInt64.ofNat (t + 1)) (UInt64.ofNat t)) = (.ok (), ⟨twoNonces,
        record twoNonces empty "a" (UInt64.ofNat (t + 1)) (UInt64.ofNat t)⟩) := by
    refine step_record rfl hlive hclean ?_ ?_
    · rw [hentries]
      simp
    · rw [hentries, Std.ExtTreeMap.size_empty]
      decide
  have hone : (record twoNonces empty "a" (UInt64.ofNat (t + 1)) (UInt64.ofNat t)).entries =
      (∅ : NonceMap).insert "a" (UInt64.ofNat (t + 1)) := by
    simp only [BoundedReplayStore.record, hentries, hexpiry]
  generalize hstate : record twoNonces empty "a" (UInt64.ofNat (t + 1)) (UInt64.ofNat t) = one
    at hfirst hone
  have hnotDue : cleanupIfDue twoNonces one (UInt64.ofNat t) = one := by
    have hsame : one.lastCleanupMs = UInt64.ofNat t := by rw [← hstate]; exact hlast
    have hzero : saturatingSub (UInt64.ofNat t) (UInt64.ofNat t) = 0 := by
      simp [saturatingSub]
    rw [cleanupIfDue, hsame, hzero]
    exact if_neg (by decide)
  have hsecond : BoundedReplayStore.step ⟨twoNonces, one⟩
      (.checkAndRecord "b" (UInt64.ofNat (t + 1)) (UInt64.ofNat t)) = (.ok (), ⟨twoNonces,
        record twoNonces one "b" (UInt64.ofNat (t + 1)) (UInt64.ofNat t)⟩) := by
    refine step_record rfl hlive hnotDue ?_ ?_
    · rw [hone, Std.ExtTreeMap.contains_insert, Std.ExtTreeMap.contains_empty]
      decide
    · rw [hone, Std.ExtTreeMap.size_insert, if_neg (by simp), Std.ExtTreeMap.size_empty]
      decide
  have htwo : (record twoNonces one "b" (UInt64.ofNat (t + 1)) (UInt64.ofNat t)).entries =
      ((∅ : NonceMap).insert "a" (UInt64.ofNat (t + 1))).insert "b" (UInt64.ofNat (t + 1)) := by
    simp only [BoundedReplayStore.record, hone, hexpiry]
  have hrun : runStore BoundedReplayStore.step ⟨twoNonces, state⟩ (PeerRpc.round t) = ⟨twoNonces,
      record twoNonces one "b" (UInt64.ofNat (t + 1)) (UInt64.ofNat t)⟩ := by
    rw [PeerRpc.round, runStore, List.foldl_cons, List.foldl_cons, List.foldl_nil, hfirst, hsecond]
  have hdue : saturatingSub (UInt64.ofNat (t + 1))
      (record twoNonces one "b" (UInt64.ofNat (t + 1)) (UInt64.ofNat t)).lastCleanupMs ≥
        twoNonces.cleanupIntervalMs := by
    have hsame : (record twoNonces one "b" (UInt64.ofNat (t + 1))
        (UInt64.ofNat t)).lastCleanupMs = UInt64.ofNat t := by
      rw [← hstate]
      exact hlast
    have hone : twoNonces.cleanupIntervalMs.toNat = 1 := rfl
    rw [hsame, saturatingSub, if_pos (Std.le_of_lt hlive), ge_iff_le, UInt64.le_iff_toNat_le,
      UInt64.toNat_sub_of_le _ _ (Std.le_of_lt hlive), hone]
    omega
  rw [hrun]
  refine ⟨?_, ?_, rfl, ?_, ?_⟩
  · simp only [PeerRpc.round, acceptedCalls, hfirst, hsecond]
    rfl
  · rw [htwo, Std.ExtTreeMap.size_insert, Std.ExtTreeMap.contains_insert,
      Std.ExtTreeMap.contains_empty, Std.ExtTreeMap.size_insert]
    decide
  · rw [cleanupIfDue, if_pos hdue, cleanupLocked, htwo]
    refine Std.ExtTreeMap.ext_getElem? fun nonce => ?_
    rw [Std.ExtTreeMap.getElem?_filter', Std.ExtTreeMap.getElem?_insert,
      Std.ExtTreeMap.getElem?_insert, Std.ExtTreeMap.getElem?_empty]
    split
    · simp
    · split <;> simp
  · rw [cleanupIfDue, if_pos hdue]
    rfl

theorem rounds_succ (n : Nat) : rounds (n + 1) = rounds n ++ round n := by
  rw [rounds, rounds, List.range_succ, List.flatMap_append, List.flatMap_singleton]

theorem acceptedCalls_append (store : BoundedReplayStore) (calls more : List StoreCall) :
    acceptedCalls store (calls ++ more) = acceptedCalls store calls +
      acceptedCalls (runStore BoundedReplayStore.step store calls) more := by
  induction calls generalizing store with
  | nil => simp [acceptedCalls, runStore]
  | cons call calls ih =>
    rw [List.cons_append, acceptedCalls, acceptedCalls, ih, Nat.add_assoc]
    rfl

theorem rounds_accepted {n : Nat} (hn : n < 2 ^ 64) :
    acceptedCalls (new twoNonces) (rounds n) = 2 * n ∧
      Ready n (runStore BoundedReplayStore.step (new twoNonces) (rounds n)) := by
  induction n with
  | zero => exact ⟨rfl, ready_new⟩
  | succ n ih =>
    obtain ⟨hcount, hready⟩ := ih (by omega)
    obtain ⟨htwo, -, hnext⟩ := hready.round hn
    rw [rounds_succ, acceptedCalls_append, hcount, htwo, runStore, List.foldl_append]
    exact ⟨by omega, hnext⟩

theorem pairwise_rounds {n : Nat} (hn : n < 2 ^ 64) :
    ((rounds n).map StoreCall.nowMs).Pairwise (· ≤ ·) ∧
      ∀ now ∈ (rounds n).map StoreCall.nowMs, now < UInt64.ofNat n := by
  induction n with
  | zero => exact ⟨List.Pairwise.nil, by simp [rounds]⟩
  | succ n ih =>
    obtain ⟨hpairwise, hbelow⟩ := ih (by omega)
    have hlast : (round n).map StoreCall.nowMs = [UInt64.ofNat n, UInt64.ofNat n] := rfl
    have hlt : UInt64.ofNat n < UInt64.ofNat (n + 1) := by
      have hsize : UInt64.size = 2 ^ 64 := rfl
      rw [UInt64.lt_iff_toNat_lt, UInt64.toNat_ofNat_of_lt' (by omega),
        UInt64.toNat_ofNat_of_lt' (by omega)]
      omega
    rw [rounds_succ, List.map_append, hlast]
    constructor
    · refine List.pairwise_append.2 ⟨hpairwise, by simp, fun now hnow later hlater => ?_⟩
      obtain rfl : later = UInt64.ofNat n := by simpa using hlater
      exact Std.le_of_lt (hbelow now hnow)
    · intro now hnow
      obtain hnow | hnow := List.mem_append.1 hnow
      · exact UInt64.lt_trans (hbelow now hnow) hlt
      · obtain rfl : now = UInt64.ofNat n := by simpa using hnow
        exact hlt

/-- Counters that are full do not tell the entries any more. -/
theorem saturated_metrics : ∃ calls state, calls = rounds (2 ^ 63) ∧
    (calls.map StoreCall.nowMs).Pairwise (· ≤ ·) ∧
    (runStore BoundedReplayStore.step (new twoNonces) calls).state = state ∧
    state.metrics.entries + state.metrics.expired.toNat ≠ state.metrics.accepted.toNat := by
  obtain ⟨n, hn⟩ : ∃ n, n + 1 = 2 ^ 63 := ⟨2 ^ 63 - 1, by norm_num⟩
  obtain ⟨hcount, hready⟩ := rounds_accepted (show n < 2 ^ 64 by omega)
  obtain ⟨htwo, hsize, -⟩ := hready.round (by omega)
  have hnew : Consistent (new twoNonces).config 0 (new twoNonces).state := consistent_new twoNonces
  have h := hnew.run (rounds (n + 1))
  have hall : runStore BoundedReplayStore.step (new twoNonces) (rounds (n + 1)) =
      runStore BoundedReplayStore.step (runStore BoundedReplayStore.step (new twoNonces)
        (rounds n)) (round n) := by
    rw [rounds_succ, runStore, List.foldl_append]
    rfl
  rw [rounds_succ, acceptedCalls_append, hcount, htwo, ← rounds_succ] at h
  rw [← hall] at hsize
  refine ⟨_, _, rfl, (pairwise_rounds (by norm_num)).1, rfl, ?_⟩
  rw [← hn]
  obtain ⟨expired, htotal, hexpired⟩ := h.expired
  rw [h.entries, h.accepted, hexpired, hsize]
  rw [hsize] at htotal
  omega

end AppCore.PeerRpc
