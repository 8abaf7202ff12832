import AppCore.Sync.Types

/-!
# Peer checkpoints

`checkpoint.rs`: for each peer the last accepted sequence and the hash of the batch that ended
there. Peer ids and hashes are validated on every access.
-/

namespace AppCore.Sync

def maxCheckpointPeerIdBytes : Nat := 256

/-- A sequence and a batch hash. -/
abbrev Checkpoint := UInt64 × String

abbrev CheckpointMap := Std.ExtTreeMap String Checkpoint compare

def isPeerIdChar (ch : Char) : Bool :=
  ch.isAlphanum || ch == '.' || ch == '_' || ch == ':' || ch == '-'

def validatePeerId (peerId : String) : SyncResult Unit :=
  if peerId.toList.isEmpty || (strBytes peerId).length > maxCheckpointPeerIdBytes then
    .error .invalidPeerId
  else if !peerId.toList.all isPeerIdChar then .error .invalidPeerId
  else .ok ()

theorem isPeerIdChar_of_byte {c : Char} (hc : c.toNat < 128)
    (h : isIdentifierByte (UInt8.ofNat c.toNat) = true) : isPeerIdChar c = true := by
  have key : ∀ n : Fin 128, isIdentifierByte (UInt8.ofNat n) = true →
      isPeerIdChar (Char.ofNat n) = true := by decide
  have := key ⟨c.toNat, hc⟩ h
  simpa using this

/-- A node id that was validated names a valid peer. -/
theorem validatePeerId_of_new {value : String} {id : NodeId} (h : NodeId.new value = .ok id) :
    validatePeerId id.asStr = .ok () := by
  unfold NodeId.new at h
  split at h
  · simp at h
  rename_i hvalid
  obtain rfl := Except.ok.inj h
  obtain ⟨hne, hlen, hbytes⟩ := validateIdentifier_ok hvalid
  have hbelow : ∀ b : UInt8, isIdentifierByte b = true → b < 0x80 := by decide +kernel
  have hascii : IsAscii value.toList := isAscii_of_bytes fun b hb => hbelow b (hbytes b hb)
  have hchars : ∀ c ∈ value.toList, isPeerIdChar c = true := by
    intro c hc
    refine isPeerIdChar_of_byte (hascii c hc) (hbytes _ ?_)
    rw [strBytes, utf8_of_ascii hascii]
    exact List.mem_map.2 ⟨c, hc, rfl⟩
  have hshort : ¬ (strBytes value).length > maxCheckpointPeerIdBytes := by
    unfold maxIdentifierLen at hlen
    unfold maxCheckpointPeerIdBytes
    omega
  simp [validatePeerId, hne, hshort, List.all_eq_true.2 hchars]

def validateCheckpointHash (hash : String) : SyncResult Unit :=
  if hash.toList.isEmpty ||
      ((strBytes hash).length == 64 && hash.toList.all isHexDigit) then .ok ()
  else .error (.replicationFailed "invalid checkpoint hash")

/-- `trait SyncCheckpointStore`. -/
class SyncCheckpointStore (C : Type) where
  getCheckpoint : C → String → SyncResult (Option Checkpoint)
  setCheckpoint : C → String → UInt64 → String → SyncResult Unit × C

export SyncCheckpointStore (getCheckpoint setCheckpoint)

/-- `get_last_sequence`: zero when there is no checkpoint. -/
def getLastSequence {C : Type} [SyncCheckpointStore C] (store : C) (peerId : String) :
    SyncResult UInt64 :=
  match getCheckpoint store peerId with
  | .error e => .error e
  | .ok checkpoint => .ok ((checkpoint.map (·.1)).getD 0)

structure InMemorySyncCheckpointStore where
  checkpoints : CheckpointMap

namespace InMemorySyncCheckpointStore

def new : InMemorySyncCheckpointStore := ⟨∅⟩

instance : SyncCheckpointStore InMemorySyncCheckpointStore where
  getCheckpoint store peerId :=
    match validatePeerId peerId with
    | .error e => .error e
    | .ok () => .ok store.checkpoints[peerId]?
  setCheckpoint store peerId sequence hash :=
    match validatePeerId peerId with
    | .error e => (.error e, store)
    | .ok () =>
      match validateCheckpointHash hash with
      | .error e => (.error e, store)
      | .ok () => (.ok (), ⟨store.checkpoints.insert peerId (sequence, hash)⟩)

/-- The last accepted sequence of a peer, zero without a checkpoint. -/
def lastSequence (store : InMemorySyncCheckpointStore) (peerId : String) : UInt64 :=
  (store.checkpoints[peerId]?.map (·.1)).getD 0

theorem getCheckpoint_ok {store : InMemorySyncCheckpointStore} {peerId : String}
    (h : validatePeerId peerId = .ok ()) :
    getCheckpoint store peerId = .ok store.checkpoints[peerId]? := by
  simp [getCheckpoint, h]

theorem getLastSequence_ok {store : InMemorySyncCheckpointStore} {peerId : String} {n : UInt64}
    (h : getLastSequence store peerId = .ok n) :
    validatePeerId peerId = .ok () ∧ n = store.lastSequence peerId := by
  cases hp : validatePeerId peerId with
  | error e => simp [getLastSequence, getCheckpoint, hp] at h
  | ok _ =>
    simp only [getLastSequence, getCheckpoint_ok hp] at h
    exact ⟨rfl, (Except.ok.inj h).symm⟩

theorem getLastSequence_eq (store : InMemorySyncCheckpointStore) {peerId : String}
    (h : validatePeerId peerId = .ok ()) :
    getLastSequence store peerId = .ok (store.lastSequence peerId) := by
  simp only [getLastSequence, getCheckpoint_ok h]
  rfl

theorem setCheckpoint_ok (store : InMemorySyncCheckpointStore) {peerId hash : String}
    (sequence : UInt64) (hp : validatePeerId peerId = .ok ())
    (hh : validateCheckpointHash hash = .ok ()) :
    setCheckpoint store peerId sequence hash =
      (.ok (), ⟨store.checkpoints.insert peerId (sequence, hash)⟩) := by
  simp [setCheckpoint, hp, hh]

theorem lastSequence_insert (store : InMemorySyncCheckpointStore) (peerId p : String)
    (sequence : UInt64) (hash : String) :
    lastSequence ⟨store.checkpoints.insert peerId (sequence, hash)⟩ p =
      if p = peerId then sequence else store.lastSequence p := by
  simp only [lastSequence, Std.ExtTreeMap.getElem?_insert, Std.LawfulEqCmp.compare_eq_iff_eq]
  by_cases h : p = peerId
  · simp [h]
  · simp [h, Ne.symm h]

end InMemorySyncCheckpointStore

theorem validateCheckpointHash_hexDigest [Sha256] (input : Bytes) :
    validateCheckpointHash (hexDigest input) = .ok () := by
  have hlen : (strBytes (hexDigest input)).length = 64 := by
    rw [strBytes, toList_hexDigest, utf8_of_ascii (isAscii_lowerHex _), List.length_map,
      length_lowerHex, Vector.length_toList]
  have hall : (hexDigest input).toList.all isHexDigit = true :=
    List.all_eq_true.2 fun _ hc => isHexDigit_of_mem_hexDigest hc
  simp [validateCheckpointHash, hlen, hall]

end AppCore.Sync
