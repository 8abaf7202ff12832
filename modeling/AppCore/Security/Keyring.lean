import AppCore.Base.Maps
import AppCore.Base.Prog
import AppCore.Security.Secret

/-!
# The file keyring

`FileSecretKeyring` of `secret_keyring.rs`: a file for each key and a pointer to the active one. An
atomic write and the removal of the pointer are one step each, and a call is a program that can be
stopped between them. The lock keeps calls apart; permissions and the format marker are left out.

The state keeps the history of the keys the pointer was set to.
-/

namespace AppCore.Security

inductive SecretAccessError where
  | invalidPath
  | insecurePermissions
  | unavailable
  | invalidMaterial
  | expired
  | deprecated
  | revoked
  | conflict
  | io
  deriving DecidableEq, Repr

/-- `FileSecretKeyring`: the files of the keys by their identifiers, and the pointer. -/
structure FileSecretKeyring where
  keys : Std.ExtTreeMap String Bytes compare
  active : Option Bytes
  targets : List String

/-- A keyring that was just created. -/
def FileSecretKeyring.empty : FileSecretKeyring := { keys := ∅, active := none, targets := [] }

/-- A call on a keyring. -/
abbrev KeyringProg := Prog FileSecretKeyring SecretAccessError

def validateKeyId (keyId : String) : Except SecretAccessError Unit :=
  if IsKeyId keyId then .ok () else .error .invalidPath

def validateForValidation (material : SecuritySecretMaterial) (nowMs : UInt64) :
    Except SecretAccessError Unit :=
  if material.metadata.status = .revoked then .error .revoked
  else if material.isExpired nowMs then .error .expired
  else .ok ()

def validateForIssue (material : SecuritySecretMaterial) (nowMs : UInt64) :
    Except SecretAccessError Unit := do
  validateForValidation material nowMs
  if material.metadata.status = .deprecated then .error .deprecated else .ok ()

def validateNewActive (material : SecuritySecretMaterial) (nowMs : UInt64) :
    Except SecretAccessError Unit := do
  validateKeyId material.metadata.keyId
  if material.secret.length < 16 then .error .invalidMaterial
  else validateForIssue material nowMs

/-! ## Files -/

/-- The file of some material. -/
def materialFile (material : SecuritySecretMaterial) : Bytes := utf8 (formatSecretMaterial material)

/-- The largest key file that is read. -/
def maxKeyFileBytes : Nat := 65536

/-- The largest pointer that is read. -/
def maxPointerBytes : Nat := 256

/-- `read_material`, of the bytes of a file. -/
def readMaterial (bytes : Bytes) : Except SecretAccessError SecuritySecretMaterial :=
  if maxKeyFileBytes < bytes.length then .error .invalidMaterial
  else
    match parseSecretMaterial bytes with
    | .ok material => .ok material
    | .error _ => .error .invalidMaterial

def pointerFile (keyId : String) : Bytes := strBytes keyId ++ [0x0a]

namespace FileSecretKeyring

def readKey (keyring : FileSecretKeyring) (keyId : String) :
    Except SecretAccessError SecuritySecretMaterial := do
  validateKeyId keyId
  match keyring.keys[keyId]? with
  | none => .error .unavailable
  | some bytes => readMaterial bytes

def readActiveId (keyring : FileSecretKeyring) : Except SecretAccessError String :=
  match keyring.active with
  | none => .error .unavailable
  | some bytes =>
    if maxPointerBytes < bytes.length then .error .invalidMaterial
    else
      match fromUtf8 bytes with
      | none => .error .invalidMaterial
      | some text => do
          let keyId := String.ofList (trim text)
          validateKeyId keyId
          .ok keyId

def resolveActive (keyring : FileSecretKeyring) (nowMs : UInt64) :
    Except SecretAccessError SecuritySecretMaterial := do
  let active ← keyring.readActiveId
  let material ← keyring.readKey active
  validateForIssue material nowMs
  .ok material

def resolveForValidation (keyring : FileSecretKeyring) (keyId : String) (nowMs : UInt64) :
    Except SecretAccessError SecuritySecretMaterial := do
  validateKeyId keyId
  let material ← keyring.readKey keyId
  validateForValidation material nowMs
  .ok material

/-- `active_candidates`, in the order of the identifiers. -/
def activeCandidates (keyring : FileSecretKeyring) (nowMs : UInt64) :
    Except SecretAccessError (List String) := do
  let materials ← keyring.keys.toList.mapM fun (_, bytes) => readMaterial bytes
  .ok ((materials.filter fun material => (validateForIssue material nowMs).isOk).map
    fun material => material.metadata.keyId)

/-! ## Calls -/

def persistKey (material : SecuritySecretMaterial) : KeyringProg Unit :=
  Prog.step fun keyring => do
    validateKeyId material.metadata.keyId
    .ok { keyring with
      keys := keyring.keys.insert material.metadata.keyId (materialFile material) }

def persistActive (keyId : String) : KeyringProg Unit :=
  Prog.step fun keyring => do
    validateKeyId keyId
    .ok { keyring with
      active := some (pointerFile keyId)
      targets := keyring.targets ++ [keyId] }

/-- `remove_file_if_present` of the pointer. -/
def removeActive : KeyringProg Unit :=
  Prog.step fun keyring => .ok { keyring with active := none }

def installInitial (material : SecuritySecretMaterial) (nowMs : UInt64) : KeyringProg Unit := do
  Prog.read fun _ => validateNewActive material nowMs
  Prog.read fun keyring => if keyring.active.isSome then .error .conflict else .ok ()
  persistKey material
  persistActive material.metadata.keyId

def rotate (next : SecuritySecretMaterial) (nowMs : UInt64) : KeyringProg (Option String) := do
  Prog.read fun _ => validateNewActive next nowMs
  let previous ← Prog.read fun keyring => .ok keyring.readActiveId.toOption
  if previous = some next.metadata.keyId then Prog.fail .conflict
  else do
    persistKey next
    persistActive next.metadata.keyId
    match previous with
    | none => pure none
    | some previous => do
        let old ← Prog.read fun keyring => keyring.readKey previous
        if old.metadata.status = .revoked then pure (some previous)
        else do
          persistKey (old.withStatus .deprecated)
          pure (some previous)

def revoke (keyId : String) : KeyringProg Unit := do
  Prog.read fun _ => validateKeyId keyId
  let material ← Prog.read fun keyring => keyring.readKey keyId
  persistKey (material.withStatus .revoked)
  let active ← Prog.read fun keyring => .ok keyring.readActiveId.toOption
  if active = some keyId then removeActive else pure ()

def recover (nowMs : UInt64) : KeyringProg String := do
  let active ← Prog.read fun keyring => .ok keyring.readActiveId
  match active with
  | .ok active => do
      Prog.read fun keyring => do
        let material ← keyring.readKey active
        validateForIssue material nowMs
      pure active
  | .error _ => do
      let candidates ← Prog.read fun keyring => keyring.activeCandidates nowMs
      match candidates with
      | [candidate] => do
          persistActive candidate
          pure candidate
      | _ => Prog.fail .conflict

end FileSecretKeyring

/-! ## Runs -/

/-- A call that changes a keyring. -/
inductive KeyringCall where
  | installInitial (material : SecuritySecretMaterial) (nowMs : UInt64)
  | rotate (next : SecuritySecretMaterial) (nowMs : UInt64)
  | revoke (keyId : String)
  | recover (nowMs : UInt64)

namespace KeyringCall

/-- The program of a call, with the identifier it returns. -/
def prog : KeyringCall → KeyringProg (Option String)
  | .installInitial material nowMs => do
      FileSecretKeyring.installInitial material nowMs
      pure none
  | .rotate next nowMs => FileSecretKeyring.rotate next nowMs
  | .revoke keyId => do
      FileSecretKeyring.revoke keyId
      pure none
  | .recover nowMs => do
      let active ← FileSecretKeyring.recover nowMs
      pure (some active)

/-- The material that a call installs. -/
def material : KeyringCall → Option SecuritySecretMaterial
  | .installInitial material _ => some material
  | .rotate next _ => some next
  | .revoke _ => none
  | .recover _ => none

/-- The material whose file a call gets to write. -/
def installs (keyring : FileSecretKeyring) : KeyringCall → Option SecuritySecretMaterial
  | .installInitial material nowMs =>
    if (validateNewActive material nowMs).isOk ∧ keyring.active = none then some material else none
  | .rotate next nowMs =>
    if (validateNewActive next nowMs).isOk ∧
      keyring.readActiveId.toOption ≠ some next.metadata.keyId then some next else none
  | .revoke _ => none
  | .recover _ => none

end KeyringCall

namespace FileSecretKeyring

/-- The state after calls that ran to their ends. -/
def completed (keyring : FileSecretKeyring) (calls : List KeyringCall) : FileSecretKeyring :=
  calls.foldl (fun keyring call => call.prog.final keyring) keyring

end FileSecretKeyring

/-- How a call ended. -/
inductive KeyringOutcome where
  | returned (result : Except SecretAccessError (Option String))
  | stopped (steps : Nat)

/-- A call of a run, and the material whose file it got to write. -/
structure KeyringEvent where
  call : KeyringCall
  installs : Option SecuritySecretMaterial
  outcome : KeyringOutcome

/-- Runs of calls that all meet a condition. A call can be stopped behind any of its steps. -/
inductive KeyringHistory (P : List KeyringEvent → FileSecretKeyring → KeyringCall → Prop) :
    List KeyringEvent → FileSecretKeyring → Prop
  | start : KeyringHistory P [] FileSecretKeyring.empty
  | returned {events : List KeyringEvent} {keyring : FileSecretKeyring} {call : KeyringCall}
      (h : KeyringHistory P events keyring) (hcall : P events keyring call) :
      KeyringHistory P
        (events ++ [⟨call, call.installs keyring, .returned (call.prog.result keyring)⟩])
        (call.prog.final keyring)
  | stopped {events : List KeyringEvent} {keyring after : FileSecretKeyring} {call : KeyringCall}
      {steps : Nat} (h : KeyringHistory P events keyring) (hcall : P events keyring call)
      (hafter : (call.prog.stops keyring)[steps]? = some after) :
      KeyringHistory P (events ++ [⟨call, call.installs keyring, .stopped steps⟩]) after

/-- Material of a key, for examples. -/
def sampleMaterial (keyId : String) (byte : UInt8) : SecuritySecretMaterial :=
  { secret := List.replicate 16 byte
    metadata := { keyId, createdAtMs := 1, expiresAtMs := none, status := .active } }

end AppCore.Security
