import AppCore.Dnt.File
import AppCore.Dnt.Migration
import AppCore.Storage.Provider

/-!
# The sealed object store

`storage_dnt.rs`: objects sealed as DNT envelopes in the files of the storage provider. Every options
value of the store is made from its policy. A write seals the payload, plain or compressed, and
verifies what it sealed; rotating a key opens the envelope that is there and seals its payload again.
Whatever reads an envelope bounds the whole file by the payload limit and by the largest that the
other parts of an envelope can be.

The time, the random nonce and the name of the temporary file of a write are arguments.
-/

namespace AppCore.Storage

open Dnt

structure SealedStoragePolicy where
  applicationId : ApplicationId
  tenantId : Option TenantId
  contentType : ContentType
  schemaVersion : UInt32
  keyId : KeyId
  maxPayloadBytes : UInt64
  publicMetadata : Bytes

def SealedStoragePolicy.openOptions (policy : SealedStoragePolicy) : DntOpenOptions where
  applicationId := policy.applicationId
  tenantId := policy.tenantId
  contentType := policy.contentType
  maxPayloadBytes := some policy.maxPayloadBytes

def SealedStoragePolicy.sealOptions (policy : SealedStoragePolicy) (createdAtMs : UInt64)
    (encryptedMetadata : Bytes) : DntSealOptions where
  applicationId := policy.applicationId
  tenantId := policy.tenantId
  contentType := policy.contentType
  schemaVersion := policy.schemaVersion
  keyId := policy.keyId
  createdAtMs := createdAtMs
  publicMetadata := policy.publicMetadata
  encryptedMetadata := encryptedMetadata
  flags := 0
  maxPayloadBytes := some policy.maxPayloadBytes

/-! ## Errors -/

/-- `StorageError`, with the variant that sealed objects add. -/
inductive SealedError where
  | storage (error : StorageError)
  | securityFailed (path : String)
  deriving DecidableEq, Repr

def mapDntError : DntError → SealedError
  | .io => .storage (.transactionFailed "dnt")
  | .keyUnavailable => .securityFailed "dnt"
  | .authenticationFailed => .securityFailed "dnt"
  | .contextMismatch => .securityFailed "dnt"
  | _ => .storage (.invalidPath "dnt")

/-- An operation on sealed objects. -/
abbrev SealedProg (α : Type) := Prog Disk SealedError α

/-- A call of the envelope functions. -/
def ofDnt {α : Type} (result : DntResult α) : SealedProg α :=
  Prog.read fun _ => result.mapError mapDntError

/-- A call of the file provider. -/
def ofStorage {α : Type} (operation : StorageProg α) : SealedProg α :=
  operation.mapError .storage

/-- What `read_bytes_bounded` does with the file it opened. -/
def readRegularBounded (full : Path) (path : String) (maxBytes : UInt64) (d : Disk) :
    StorageResult Bytes :=
  match d.readFile full with
  | .error _ => .error (.repositoryNotFound path)
  | .ok content =>
    if content.length > maxBytes.toNat then .error (.transactionFailed path)
    else match checkedAdd maxBytes 1 with
      | none => .error (.transactionFailed path)
      | some readLimit =>
        let bytes := content.take readLimit.toNat
        if bytes.length > maxBytes.toNat then .error (.transactionFailed path) else .ok bytes

def FileStorageProvider.readBytesBounded (provider : FileStorageProvider) (path : String)
    (maxBytes : UInt64) : StorageProg Bytes := do
  let _ ← Prog.read (provider.resolveStorage path)
  provider.withStorageLock do
    let full ← Prog.read (provider.resolveStorage path)
    Prog.read (readRegularBounded full path maxBytes)

/-! ## The store -/

structure DntFileObjectStore where
  provider : FileStorageProvider
  keyProvider : DntKeyProvider
  codec : DntCodec
  policy : SealedStoragePolicy

/-- What a write takes from its surroundings: the time, the random nonce or none, and what the name
of its temporary file is made of. -/
structure Draw where
  nowMs : UInt64
  random : Option Nonce
  stamp : String

namespace DntFileObjectStore

variable [Sha256] [Aead] [Zlib] (store : DntFileObjectStore)

def writeObjectWithFlags (path : String) (payload : Bytes) (flags : UInt32) (draw : Draw) :
    SealedProg Unit := do
  let options := { store.policy.sealOptions draw.nowMs [] with flags := flags }
  let envelope ← ofDnt (sealDnt payload store.keyProvider store.codec options draw.random)
  let _ ← ofDnt (verifyDnt envelope store.keyProvider store.codec store.policy.openOptions)
  ofStorage (store.provider.writeBytes path envelope draw.stamp)

def writeObject (path : String) (payload : Bytes) (draw : Draw) : SealedProg Unit :=
  store.writeObjectWithFlags path payload 0 draw

def writeObjectCompact (path : String) (payload : Bytes) (draw : Draw) : SealedProg Unit :=
  store.writeObjectWithFlags path payload dntFlagPayloadDeflate draw

def readObject (path : String) : SealedProg Bytes := do
  let options := store.policy.openOptions
  let maxEnvelopeBytes ← ofDnt options.maxEnvelopeBytes
  let bytes ← ofStorage (store.provider.readBytesBounded path maxEnvelopeBytes)
  let opened ← ofDnt (openOwned bytes store.keyProvider store.codec options)
  pure opened.payload

def verifyObject (path : String) : SealedProg Unit := do
  let options := store.policy.openOptions
  let maxEnvelopeBytes ← ofDnt options.maxEnvelopeBytes
  let bytes ← ofStorage (store.provider.readBytesBounded path maxEnvelopeBytes)
  let _ ← ofDnt (verifyDnt bytes store.keyProvider store.codec options)
  pure ()

def rekeyObject (path : String) (newKeyId : KeyId) (draw : Draw) : SealedProg Unit := do
  let options := store.policy.openOptions
  let maxEnvelopeBytes ← ofDnt options.maxEnvelopeBytes
  let bytes ← ofStorage (store.provider.readBytesBounded path maxEnvelopeBytes)
  let _ ← ofDnt (inspectHeader bytes)
  let rotated ← ofDnt (rekey bytes store.keyProvider store.codec options newKeyId draw.random)
  let _ ← ofDnt (verifyDnt rotated store.keyProvider store.codec options)
  ofStorage (store.provider.writeBytes path rotated draw.stamp)

end DntFileObjectStore

/-! ## The bound on a file -/

/-- What an envelope adds to its payload: the largest header, the largest metadata with its length,
and the tag. -/
def envelopeOverhead : Nat := dntMaxHeaderBytes + dntMaxEncryptedMetadataBytes + 20

/-- The bound on a file, and the one byte more that a read asks for, are numbers of 64 bits. -/
def SealedStoragePolicy.Bounded (policy : SealedStoragePolicy) : Prop :=
  policy.maxPayloadBytes.toNat + envelopeOverhead < 2 ^ 64 - 1

/-- The bound is the sum of its parts, where there is one. -/
theorem maxEnvelopeBytes_eq_ok {options : DntOpenOptions} {limit maxBytes : UInt64}
    (hmax : options.maxPayloadBytes = some limit) :
    options.maxEnvelopeBytes = .ok maxBytes ↔ maxBytes.toNat = limit.toNat + envelopeOverhead := by
  have hheader : (UInt64.ofNat dntMaxHeaderBytes).toNat = 65536 := by decide
  have hmetadata : (UInt64.ofNat dntMaxEncryptedMetadataBytes).toNat = 65536 := by decide
  have hrest : (20 : UInt64).toNat = 20 := by decide
  have hover : envelopeOverhead = 65536 + 65536 + 20 := by decide
  have hlt := maxBytes.toNat_lt
  have hsum : options.maxEnvelopeBytes = .ok maxBytes ↔
      ((checkedAdd limit (UInt64.ofNat dntMaxHeaderBytes)).bind fun length =>
        (checkedAdd length (UInt64.ofNat dntMaxEncryptedMetadataBytes)).bind fun length =>
          checkedAdd length 20) = some maxBytes := by
    rw [DntOpenOptions.maxEnvelopeBytes, hmax]
    dsimp only
    split
    · rename_i hnone
      simp [hnone]
    · rename_i found hfound
      rw [hfound, Except.ok.injEq, Option.some.injEq]
  rw [hsum, Option.bind_eq_some_iff, hover]
  constructor
  · rintro ⟨first, hfirst, h⟩
    obtain ⟨second, hsecond, h⟩ := Option.bind_eq_some_iff.1 h
    have h₁ := (checkedAdd_eq_some.1 hfirst)
    have h₂ := (checkedAdd_eq_some.1 hsecond)
    have h₃ := (checkedAdd_eq_some.1 h)
    omega
  · intro h
    have hfirst : (UInt64.ofNat (limit.toNat + 65536)).toNat = limit.toNat + 65536 :=
      UInt64.toNat_ofNat_of_lt' (show _ < 2 ^ 64 by omega)
    have hsecond : (UInt64.ofNat (limit.toNat + 65536 + 65536)).toNat =
        limit.toNat + 65536 + 65536 := UInt64.toNat_ofNat_of_lt' (show _ < 2 ^ 64 by omega)
    refine ⟨_, checkedAdd_eq_some.2 ⟨?_, hfirst.trans (by rw [hheader])⟩,
      Option.bind_eq_some_iff.2 ⟨_, checkedAdd_eq_some.2 ⟨?_, hsecond.trans ?_⟩,
        checkedAdd_eq_some.2 ⟨?_, ?_⟩⟩⟩
    all_goals omega

/-- The bytes of a file within the bound are read. -/
theorem readRegularBounded_of_get {full : Path} {path : String} {content : Bytes}
    {maxBytes : UInt64} {d : Disk} (h : d.get full = some (.file content))
    (hlength : content.length ≤ maxBytes.toNat) (hmax : maxBytes.toNat < 2 ^ 64 - 1) :
    readRegularBounded full path maxBytes d = .ok content := by
  have hone : (1 : UInt64).toNat = 1 := rfl
  have hlimit : (maxBytes + 1).toNat = maxBytes.toNat + 1 := by
    rw [toNat_add_of_lt, hone]
    omega
  have hwhole : content.take (maxBytes + 1).toNat = content := by
    apply List.take_of_length_le
    omega
  rw [readRegularBounded, Disk.readFile_eq_ok.2 h]
  dsimp only
  rw [if_neg (Nat.not_lt.2 hlength), checkedAdd, if_pos (by omega)]
  dsimp only
  rw [hwhole, if_neg (Nat.not_lt.2 hlength)]

/-- What is read is the whole file, and the bound leaves room for one byte more. -/
theorem readRegularBounded_eq_ok {full : Path} {path : String} {content : Bytes}
    {maxBytes : UInt64} {d : Disk} (h : readRegularBounded full path maxBytes d = .ok content) :
    d.get full = some (.file content) ∧ maxBytes.toNat < 2 ^ 64 - 1 := by
  unfold readRegularBounded at h
  split at h
  · cases h
  rename_i found hfound
  split at h
  · cases h
  rename_i hlength
  split at h
  · cases h
  rename_i limit hlimit
  obtain ⟨hsum, hlimit⟩ := checkedAdd_eq_some.1 hlimit
  have hone : (1 : UInt64).toNat = 1 := rfl
  have hwhole : found.take limit.toNat = found := by
    apply List.take_of_length_le
    omega
  dsimp only at h
  rw [hwhole, if_neg hlength] at h
  obtain rfl := Except.ok.inj h
  exact ⟨Disk.readFile_eq_ok.1 hfound, by omega⟩

end AppCore.Storage
