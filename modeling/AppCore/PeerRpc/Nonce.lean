import AppCore.Base.Codec
import AppCore.Base.Text

/-!
# Nonce stores

`nonce.rs`: replay protection remembers each accepted nonce until an expiry. The process-local
store keeps the nonces in arrival order and forgets expired ones from the front only; the
durable store keeps a map in a file and drops every expired entry on each call.

`RemembersNonces` is what the two have in common: a recorded nonce is rejected by every call
before its expiry, whatever calls come in between.
-/

namespace AppCore.PeerRpc

/-- `PeerRpcError`, with the variants the validator produces. -/
inductive PeerRpcError where
  | payloadTooLarge
  | tenantMismatch
  | clusterMismatch
  | targetMismatch
  | protocolMismatch
  | expired
  | nonceReplay
  | nonceCacheFull
  | invalidBodyHash
  | invalidEnvelope (reason : String)
  deriving DecidableEq, Repr

abbrev PeerRpcResult := Except PeerRpcError Unit

def maxNonceCacheEntries : Nat := 65536

def maxNonceStateBytes : Nat := 16 * 1024 * 1024

def nonceStoreFormat : String := "appcore-peer-nonce-v1"

def nonceStoreError (reason : String) : PeerRpcError := .invalidEnvelope reason

/-- Nonces and their expiry times. -/
abbrev NonceMap := Std.ExtTreeMap String UInt64 compare

/-- `trait PeerNonceStore`: reject a live duplicate or record the nonce until `expiresAtMs`. -/
class PeerNonceStore (S : Type) where
  checkAndRecord : S → String → UInt64 → UInt64 → PeerRpcResult × S

export PeerNonceStore (checkAndRecord)

structure InMemoryPeerNonceStore where
  seen : NonceMap
  order : List String

/-- `retain_memory`: forget expired nonces from the front, up to the first live one. -/
def retainMemory (nowMs : UInt64) (seen : NonceMap) : List String → InMemoryPeerNonceStore
  | [] => ⟨seen, []⟩
  | front :: rest =>
    let expired := (seen[front]?.map fun expiresAtMs => decide (expiresAtMs ≤ nowMs)).getD true
    if expired then retainMemory nowMs (seen.erase front) rest else ⟨seen, front :: rest⟩

namespace InMemoryPeerNonceStore

/-- `InMemoryPeerNonceStore::default`. -/
def new : InMemoryPeerNonceStore := ⟨∅, []⟩

instance : PeerNonceStore InMemoryPeerNonceStore where
  checkAndRecord store nonce expiresAtMs nowMs :=
    let state := retainMemory nowMs store.seen store.order
    if state.seen.contains nonce then (.error .nonceReplay, state)
    else if state.seen.size ≥ maxNonceCacheEntries then (.error .nonceCacheFull, state)
    else (.ok (), ⟨state.seen.insert nonce expiresAtMs, state.order ++ [nonce]⟩)

end InMemoryPeerNonceStore

/-! ## The durable store -/

structure PersistedNonceState where
  format : String
  entries : NonceMap

def PersistedNonceState.default : PersistedNonceState := ⟨nonceStoreFormat, ∅⟩

/-- `FilePeerNonceStore`: the bytes of its state file, when it exists. Locks, permissions and the
replacement of the file are taken to succeed. -/
structure FilePeerNonceStore where
  file : Option Bytes

namespace FilePeerNonceStore

/-- A store with no state file. -/
def new : FilePeerNonceStore := ⟨none⟩

def load [Codec PersistedNonceState] (store : FilePeerNonceStore) :
    Except PeerRpcError PersistedNonceState :=
  match store.file with
  | none => .ok .default
  | some bytes =>
    if bytes.length = 0 ∨ bytes.length > maxNonceStateBytes then
      .error (nonceStoreError "nonce_store_state_size_invalid")
    else match Codec.decode bytes with
      | none => .error (nonceStoreError "nonce_store_state_corrupt")
      | some (state : PersistedNonceState) =>
        if state.format ≠ nonceStoreFormat ∨ state.entries.size > maxNonceCacheEntries then
          .error (nonceStoreError "nonce_store_format_invalid")
        else .ok state

def persist [Codec PersistedNonceState] (state : PersistedNonceState) : FilePeerNonceStore :=
  ⟨some (Codec.encode state)⟩

instance [Codec PersistedNonceState] : PeerNonceStore FilePeerNonceStore where
  checkAndRecord store nonce expiresAtMs nowMs :=
    match store.load with
    | .error e => (.error e, store)
    | .ok state =>
      let entries := state.entries.filter fun _ storedExpiry => decide (storedExpiry > nowMs)
      if entries.contains nonce then (.error .nonceReplay, store)
      else if entries.size ≥ maxNonceCacheEntries then (.error .nonceCacheFull, store)
      else (.ok (), persist { state with entries := entries.insert nonce expiresAtMs })

end FilePeerNonceStore

/-! ## What a store remembers -/

/-- **A store that remembers nonces.** `held store nonce expiry` says that the nonce is recorded
until `expiry`; recording establishes it, calls before the expiry keep it, and while it holds
the nonce is rejected. -/
class RemembersNonces (S : Type) [PeerNonceStore S] where
  held : S → String → UInt64 → Prop
  record {store : S} {nonce : String} {expiry now : UInt64} :
    (checkAndRecord store nonce expiry now).1 = .ok () →
      held (checkAndRecord store nonce expiry now).2 nonce expiry
  keep {store : S} {nonce : String} {expiry : UInt64} (other : String) (otherExpiry now : UInt64) :
    held store nonce expiry → now < expiry →
      held (checkAndRecord store other otherExpiry now).2 nonce expiry
  reject {store : S} {nonce : String} {expiry : UInt64} (newExpiry now : UInt64) :
    held store nonce expiry → now < expiry →
      (checkAndRecord store nonce newExpiry now).1 ≠ .ok ()

/-- Forgetting expired nonces keeps a live one. -/
theorem getElem?_retainMemory {now expiry : UInt64} {nonce : String} (hlive : now < expiry)
    {seen : NonceMap} (h : seen[nonce]? = some expiry) (order : List String) :
    (retainMemory now seen order).seen[nonce]? = some expiry := by
  induction order generalizing seen with
  | nil => exact h
  | cons front rest ih =>
    unfold retainMemory
    dsimp only
    split
    · rename_i hexpired
      have hne : front ≠ nonce := by
        rintro rfl
        simp only [h, Option.map_some, Option.getD_some, decide_eq_true_eq] at hexpired
        exact absurd hlive (UInt64.not_lt.2 hexpired)
      refine ih ?_
      rw [Std.ExtTreeMap.getElem?_erase]
      simpa [Std.LawfulEqCmp.compare_eq_iff_eq, hne] using h
    · exact h

theorem contains_of_getElem? {seen : NonceMap} {nonce : String} {expiry : UInt64}
    (h : seen[nonce]? = some expiry) : seen.contains nonce = true := by
  rw [Std.ExtTreeMap.contains_eq_isSome_getElem?, h]
  rfl

theorem getElem?_insert_of_not_contains {seen : NonceMap} {nonce other : String}
    {expiry otherExpiry : UInt64} (h : seen[nonce]? = some expiry)
    (hother : ¬ seen.contains other = true) :
    (seen.insert other otherExpiry)[nonce]? = some expiry := by
  have hne : other ≠ nonce := by
    rintro rfl
    exact hother (contains_of_getElem? h)
  rw [Std.ExtTreeMap.getElem?_insert]
  simpa [Std.LawfulEqCmp.compare_eq_iff_eq, hne] using h

instance : RemembersNonces InMemoryPeerNonceStore where
  held store nonce expiry := store.seen[nonce]? = some expiry
  record {store nonce expiry now} h := by
    simp only [checkAndRecord] at h ⊢
    split at h
    · simp at h
    split at h
    · simp at h
    rename_i hnew hroom
    rw [if_neg hnew, if_neg hroom]
    exact Std.ExtTreeMap.getElem?_insert_self
  keep {store nonce expiry} other otherExpiry now h hlive := by
    have hkept := getElem?_retainMemory hlive h store.order
    simp only [checkAndRecord]
    split
    · exact hkept
    split
    · exact hkept
    rename_i hnew _
    exact getElem?_insert_of_not_contains hkept hnew
  reject {store nonce expiry} newExpiry now h hlive := by
    have hkept := getElem?_retainMemory hlive h store.order
    simp only [checkAndRecord]
    rw [if_pos (contains_of_getElem? hkept)]
    simp

theorem getElem?_filter_live {entries : NonceMap} {nonce : String} {expiry now : UInt64}
    (h : entries[nonce]? = some expiry) (hlive : now < expiry) :
    (entries.filter fun _ storedExpiry => decide (storedExpiry > now))[nonce]? = some expiry := by
  rw [Std.ExtTreeMap.getElem?_filter]
  simp [h, hlive]

namespace FilePeerNonceStore

theorem load_of_decode [Codec PersistedNonceState] {store : FilePeerNonceStore} {bytes : Bytes}
    {state loaded : PersistedNonceState} (hfile : store.file = some bytes)
    (hdecode : Codec.decode bytes = some state) (hload : store.load = .ok loaded) :
    loaded = state := by
  simp only [load, hfile, hdecode] at hload
  split at hload
  · simp at hload
  split at hload
  · simp at hload
  exact (Except.ok.inj hload).symm

end FilePeerNonceStore

instance [Codec PersistedNonceState] : RemembersNonces FilePeerNonceStore where
  held store nonce expiry := ∃ bytes state, store.file = some bytes ∧
    Codec.decode bytes = some (state : PersistedNonceState) ∧ state.entries[nonce]? = some expiry
  record {store nonce expiry now} h := by
    simp only [checkAndRecord] at h ⊢
    split at h
    · simp at h
    rename_i state hload
    split at h
    · simp at h
    split at h
    · simp at h
    rename_i hnew hroom
    simp only [if_neg hnew, if_neg hroom]
    exact ⟨_, _, rfl, Codec.decode_encode _, Std.ExtTreeMap.getElem?_insert_self⟩
  keep {store nonce expiry} other otherExpiry now := by
    rintro ⟨bytes, state, hfile, hdecode, hentry⟩ hlive
    simp only [checkAndRecord]
    split
    · exact ⟨bytes, state, hfile, hdecode, hentry⟩
    rename_i loaded hload
    obtain rfl := FilePeerNonceStore.load_of_decode hfile hdecode hload
    split
    · exact ⟨bytes, loaded, hfile, hdecode, hentry⟩
    split
    · exact ⟨bytes, loaded, hfile, hdecode, hentry⟩
    rename_i hnew _
    exact ⟨_, _, rfl, Codec.decode_encode _,
      getElem?_insert_of_not_contains (getElem?_filter_live hentry hlive) hnew⟩
  reject {store nonce expiry} newExpiry now := by
    rintro ⟨bytes, state, hfile, hdecode, hentry⟩ hlive
    simp only [checkAndRecord]
    split
    · simp
    rename_i loaded hload
    obtain rfl := FilePeerNonceStore.load_of_decode hfile hdecode hload
    rw [if_pos (contains_of_getElem? (getElem?_filter_live hentry hlive))]
    simp

end AppCore.PeerRpc
