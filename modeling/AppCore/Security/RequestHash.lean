import AppCore.Base.Delimited
import AppCore.Base.Sha256

/-!
# What a request hash binds

`request_hash.rs`: the hash that ties a credential to one request. Each field stands behind a tag of
its own and behind its length; an optional field also behind a byte that says whether it is there.

* `requestHashInput_injective` — two requests are hashed from the same bytes only if they are the
  same.
-/

namespace AppCore.Security

def requestHashDomainV2 : Bytes := strBytes "appcore.request-hash.v2" ++ [0]

def requestHashPrefixV2 : String := "v2:"

structure RequestValidationDetails where
  purpose : String
  name : String
  id : String
  idempotencyKey : Option String
  payload : String
  subject : Option String
  audience : Option String
  deriving DecidableEq, Repr

/-- `update_required`: what it feeds to the digest. -/
def updateRequired (tag : UInt8) (value : String) : Bytes :=
  tag :: (lenBytes64 (strBytes value).length ++ strBytes value)

/-- `update_optional`: what it feeds to the digest. -/
def updateOptional (tag : UInt8) : Option String → Bytes
  | some value => tag :: 1 :: (lenBytes64 (strBytes value).length ++ strBytes value)
  | none => [tag, 0]

/-- The bytes that `compute_request_hash` feeds to the digest. -/
def requestHashInput (details : RequestValidationDetails) : Bytes :=
  requestHashDomainV2 ++ updateRequired 1 details.purpose ++ updateRequired 2 details.name ++
    updateRequired 3 details.id ++ updateOptional 4 details.idempotencyKey ++
    updateRequired 5 details.payload ++ updateOptional 6 details.subject ++
    updateOptional 7 details.audience

def computeRequestHash [Sha256] (details : RequestValidationDetails) : String :=
  requestHashPrefixV2 ++ String.ofList (lowerHex (digest (requestHashInput details)).toList)

/-! ## Fields -/

/-- The length of a text fits into a `u64`, as the length of every `String` does. -/
def TextFits (text : String) : Prop := (strBytes text).length < 2 ^ 64

instance (text : String) : Decidable (TextFits text) := inferInstanceAs (Decidable (_ < _))

/-- Every text of a request has a length that fits. -/
structure RequestValidationDetails.Sized (details : RequestValidationDetails) : Prop where
  purpose : TextFits details.purpose
  name : TextFits details.name
  id : TextFits details.id
  idempotencyKey : ∀ key ∈ details.idempotencyKey, TextFits key
  payload : TextFits details.payload
  subject : ∀ subject ∈ details.subject, TextFits subject
  audience : ∀ audience ∈ details.audience, TextFits audience

theorem delimited_lengthedText :
    Delimited TextFits fun text => lenBytes64 (strBytes text).length ++ strBytes text :=
  (delimited_lengthed 8).comp strBytes_injective

theorem delimited_updateRequired (tag : UInt8) : Delimited TextFits (updateRequired tag) :=
  delimited_lengthedText.behind tag

theorem updateOptional_eq (tag : UInt8) : updateOptional tag = fun value =>
    tag :: optionalBytes (fun text => lenBytes64 (strBytes text).length ++ strBytes text) value := by
  funext value
  cases value <;> rfl

theorem delimited_updateOptional (tag : UInt8) :
    Delimited (fun value : Option String => ∀ text ∈ value, TextFits text) (updateOptional tag) := by
  rw [updateOptional_eq]
  exact (delimited_optionalBytes delimited_lengthedText).behind tag

/-- **The hash binds the whole request**: what is hashed determines every field, and whether an
optional one is there. -/
theorem requestHashInput_injective {a b : RequestValidationDetails} (ha : a.Sized) (hb : b.Sized)
    (h : requestHashInput a = requestHashInput b) : a = b := by
  obtain ⟨purpose, name, id, key, payload, subject, audience⟩ := a
  obtain ⟨purpose', name', id', key', payload', subject', audience'⟩ := b
  simp only [requestHashInput, List.append_assoc] at h
  have hfields := List.append_cancel_left h
  obtain ⟨rfl, hname⟩ := delimited_updateRequired 1 ha.purpose hb.purpose _ _ hfields
  obtain ⟨rfl, hid⟩ := delimited_updateRequired 2 ha.name hb.name _ _ hname
  obtain ⟨rfl, hkey⟩ := delimited_updateRequired 3 ha.id hb.id _ _ hid
  obtain ⟨rfl, hpayload⟩ :=
    delimited_updateOptional 4 ha.idempotencyKey hb.idempotencyKey _ _ hkey
  obtain ⟨rfl, hsubject⟩ := delimited_updateRequired 5 ha.payload hb.payload _ _ hpayload
  obtain ⟨rfl, haudience⟩ := delimited_updateOptional 6 ha.subject hb.subject _ _ hsubject
  obtain rfl := (delimited_updateOptional 7).injective ha.audience hb.audience haudience
  rfl

/-- **The request binding**: the fields one by one. -/
theorem request_bound {a b : RequestValidationDetails} (ha : a.Sized) (hb : b.Sized)
    (h : requestHashInput a = requestHashInput b) :
    a.purpose = b.purpose ∧ a.name = b.name ∧ a.id = b.id ∧
      a.idempotencyKey = b.idempotencyKey ∧ a.payload = b.payload ∧ a.subject = b.subject ∧
      a.audience = b.audience := by
  have heq := requestHashInput_injective ha hb h
  rw [heq]
  exact ⟨rfl, rfl, rfl, rfl, rfl, rfl, rfl⟩

/-- A request whose idempotency key is there or not. -/
def sampleDetails (idempotencyKey : Option String) : RequestValidationDetails where
  purpose := "command"
  name := "ping"
  id := "id-1"
  idempotencyKey
  payload := "\x7b\x7d"
  subject := some ""
  audience := none

theorem sized_sampleDetails {idempotencyKey : Option String}
    (h : ∀ key ∈ idempotencyKey, TextFits key) : (sampleDetails idempotencyKey).Sized where
  purpose := show TextFits "command" by decide
  name := show TextFits "ping" by decide
  id := show TextFits "id-1" by decide
  idempotencyKey := h
  payload := show TextFits "\x7b\x7d" by decide
  subject := by simp [sampleDetails]; decide
  audience := by simp [sampleDetails]

/-- No key is not hashed as an empty one. -/
theorem request_bound_sample :
    requestHashInput (sampleDetails none) ≠ requestHashInput (sampleDetails (some "")) := by
  intro h
  have hkey := (request_bound (sized_sampleDetails (by simp))
    (sized_sampleDetails (by simp; decide)) h).2.2.2.1
  exact absurd hkey (by decide)

end AppCore.Security
