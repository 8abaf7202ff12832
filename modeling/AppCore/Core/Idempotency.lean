import AppCore.Types.Ids

/-!
# Idempotency stores

The `IdempotencyStore` trait of `idempotency.rs` with its two implementations, as the controller of
one process uses them. What a call of the file store depends on beside the store itself, the clock
and whether the file could be written, is an argument.

* `LawfulStore` — a store holds what was inserted last under a key, or nothing.
-/

namespace AppCore.Core

/-- `RuntimeError`, with the variants of command dispatch and of the journal. -/
inductive RuntimeError where
  | commandRejected
  | handlerNotFound (name : String)
  | invalidIdempotencyKey (reason : String)
  | idempotencyStoreIo (operation message : String)
  | idempotencyConflict (key : String)
  | idempotencyPending (key : String)
  | operationalJournalIo (operation message : String)
  deriving DecidableEq, Repr

abbrev RuntimeResult (α : Type) := Except RuntimeError α

inductive IdempotencyStatus where
  | pending
  | resolved (responseStatus : UInt16) (responseBody : String)
  deriving DecidableEq

structure IdempotencyRecord where
  key : String
  requestHash : String
  status : IdempotencyStatus
  createdAtMs : UInt64
  deriving DecidableEq

def validateKey (key : String) : RuntimeResult Unit :=
  match validateIdentifier "IdempotencyKey" key with
  | .ok () => .ok ()
  | .error (.invalidIdentifier _ _ reason) =>
    .error (.invalidIdempotencyKey (if reason = "empty" then "empty" else "invalid_char"))

/-- The `IdempotencyStore` trait. `World` is what a call finds outside the store. -/
class IdempotencyStore (Store World : Type) where
  get : World → Store → String → RuntimeResult (Option IdempotencyRecord)
  insert : World → Store → IdempotencyRecord → RuntimeResult Unit × Store
  remove : World → Store → String → RuntimeResult Unit × Store

/-- A store that holds what was inserted last under a key, or nothing. -/
class LawfulStore (Store World : Type) [IdempotencyStore Store World] where
  seen : Store → String → Option IdempotencyRecord
  seen_of_get {world : World} {store : Store} {key : String} {record : IdempotencyRecord}
    (h : IdempotencyStore.get world store key = .ok (some record)) : seen store key = some record
  insert_valid {world : World} {store : Store} {record : IdempotencyRecord}
    (h : (IdempotencyStore.insert world store record).1 = .ok ()) : validateKey record.key = .ok ()
  seen_insert {world : World} {store : Store} {record : IdempotencyRecord}
    (h : (IdempotencyStore.insert world store record).1 = .ok ()) :
    seen (IdempotencyStore.insert world store record).2 =
      Function.update (seen store) record.key (some record)
  seen_insert_error {world : World} {store : Store} {record : IdempotencyRecord} {e : RuntimeError}
    (h : (IdempotencyStore.insert world store record).1 = .error e) :
    seen (IdempotencyStore.insert world store record).2 = seen store
  seen_of_remove {world : World} {store : Store} {key key' : String} {record : IdempotencyRecord}
    (h : seen (IdempotencyStore.remove world store key).2 key' = some record) :
    seen store key' = some record

/-! ## In memory -/

/-- The records by their keys. -/
abbrev RecordMap := Std.ExtTreeMap String IdempotencyRecord compare

structure InMemoryIdempotencyStore where
  seen : RecordMap

instance : IdempotencyStore InMemoryIdempotencyStore Unit where
  get _ store key := .ok store.seen[key]?
  insert _ store record :=
    match validateKey record.key with
    | .error e => (.error e, store)
    | .ok () => (.ok (), ⟨store.seen.insert record.key record⟩)
  remove _ store key := (.ok (), ⟨store.seen.erase key⟩)

theorem getElem?_insert_eq_update (seen : RecordMap) (key : String) (record : IdempotencyRecord) :
    (fun k => (seen.insert key record)[k]?) =
      Function.update (fun k => seen[k]?) key (some record) := by
  funext k
  rw [Std.ExtTreeMap.getElem?_insert, Function.update_apply]
  by_cases h : k = key
  · simp [h]
  · simp [h, Ne.symm h]

theorem getElem?_of_erase {seen : RecordMap} {key key' : String} {record : IdempotencyRecord}
    (h : (seen.erase key)[key']? = some record) : seen[key']? = some record := by
  rw [Std.ExtTreeMap.getElem?_erase] at h
  split at h
  · simp at h
  · exact h

instance : LawfulStore InMemoryIdempotencyStore Unit where
  seen store key := store.seen[key]?
  seen_of_get h := Except.ok.inj h
  insert_valid {world store record} h := by
    simp only [IdempotencyStore.insert] at h
    split at h
    · simp at h
    · assumption
  seen_insert {world store record} h := by
    simp only [IdempotencyStore.insert] at h ⊢
    split at h
    · simp at h
    · exact getElem?_insert_eq_update store.seen record.key record
  seen_insert_error {world store record e} h := by
    simp only [IdempotencyStore.insert] at h ⊢
    split at h
    · rfl
    · simp at h
  seen_of_remove h := getElem?_of_erase h

/-! ## In a file -/

/-- `FileIdempotencyStore`, without its file: the file is read when the store is opened. -/
structure FileIdempotencyStore where
  ttlMs : Option UInt64
  seen : RecordMap

/-- What a call of the file store finds: the time, and the error of writing the file, if any. -/
structure FileWorld where
  nowMs : UInt64
  failure : Option RuntimeError

def isExpired (createdAtMs : UInt64) (ttlMs : Option UInt64) (nowMs : UInt64) : Bool :=
  if createdAtMs = 0 then false
  else match ttlMs with
    | some ttl => saturatingSub nowMs createdAtMs > ttl
    | none => false

instance : IdempotencyStore FileIdempotencyStore FileWorld where
  get world store key :=
    match store.seen[key]? with
    | some record =>
      if isExpired record.createdAtMs store.ttlMs world.nowMs then .ok none else .ok (some record)
    | none => .ok none
  insert world store record :=
    match validateKey record.key with
    | .error e => (.error e, store)
    | .ok () =>
      match world.failure with
      | some e => (.error e, store)
      | none => (.ok (), { store with seen := store.seen.insert record.key record })
  remove world store key :=
    if store.seen.contains key then
      let store := { store with seen := store.seen.erase key }
      match world.failure with
      | some e => (.error e, store)
      | none => (.ok (), store)
    else (.ok (), store)

instance : LawfulStore FileIdempotencyStore FileWorld where
  seen store key := store.seen[key]?
  seen_of_get {world store key record} h := by
    simp only [IdempotencyStore.get] at h
    split at h
    · rename_i found hfound
      split at h
      · simp at h
      · rw [hfound]
        exact Except.ok.inj h
    · simp at h
  insert_valid {world store record} h := by
    simp only [IdempotencyStore.insert] at h
    split at h
    · simp at h
    · assumption
  seen_insert {world store record} h := by
    simp only [IdempotencyStore.insert] at h ⊢
    split at h
    · simp at h
    split at h
    · simp at h
    · exact getElem?_insert_eq_update store.seen record.key record
  seen_insert_error {world store record e} h := by
    simp only [IdempotencyStore.insert] at h ⊢
    split at h
    · rfl
    split at h
    · rfl
    · simp at h
  seen_of_remove {world store key key' record} h := by
    simp only [IdempotencyStore.remove] at h
    split at h
    · split at h
      · exact getElem?_of_erase h
      · exact getElem?_of_erase h
    · exact h

end AppCore.Core
