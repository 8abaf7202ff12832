import AppCore.Core.Controller

/-!
# Grants

`pre_dispatch` answers `Ok(None)` when the handler of a command is to run. It makes the key of the
command pending first, except where it finds a result with an error status under the key: it removes
that record and inserts none.

* `granted_reserves_iff` — a grant leaves the key reserved exactly when no such result was found.

`post_dispatch` stores no error status itself; a file that another version wrote may hold one.
-/

namespace AppCore.Core

/-- A lawful store that finds what it holds, and no longer holds what is removed. A record that is
not `live` for a call has expired. -/
class KeepingStore (Store World : Type) [IdempotencyStore Store World]
    [LawfulStore Store World] where
  live : World → Store → IdempotencyRecord → Prop
  get_of_seen {world : World} {store : Store} {key : String} {record : IdempotencyRecord}
    (h : @LawfulStore.seen Store World _ _ store key = some record) (hlive : live world store record) :
    IdempotencyStore.get world store key = .ok (some record)
  seen_remove {world : World} {store : Store} {key : String}
    (h : (IdempotencyStore.remove world store key).1 = .ok ()) :
    @LawfulStore.seen Store World _ _ (IdempotencyStore.remove world store key).2 key = none

instance : KeepingStore InMemoryIdempotencyStore Unit where
  live _ _ _ := True
  get_of_seen h _ := congrArg Except.ok h
  seen_remove _ := Std.ExtTreeMap.getElem?_erase_self

instance : KeepingStore FileIdempotencyStore FileWorld where
  live world store record := isExpired record.createdAtMs store.ttlMs world.nowMs = false
  get_of_seen {world store key record} h hlive := by
    have h : store.seen[key]? = some record := h
    simp only [IdempotencyStore.get, h, hlive, Bool.false_eq_true, if_false]
  seen_remove {world store key} h := by
    simp only [IdempotencyStore.remove] at h ⊢
    by_cases hheld : store.seen.contains key
    · rw [if_pos hheld] at h ⊢
      cases hfailure : world.failure with
      | none => exact Std.ExtTreeMap.getElem?_erase_self
      | some e =>
        rw [hfailure] at h
        cases h
    · rw [if_neg hheld]
      exact Std.ExtTreeMap.getElem?_eq_none (by simpa using hheld)

section

variable {Store World : Type} [Sha256] [ResultJson] [IdempotencyStore Store World]
  [LawfulStore Store World] [KeepingStore Store World]

/-- The handler of the command is to run. -/
def Granted (d : Dispatch World) (controller : RuntimeController Store) : Prop :=
  (preDispatch d controller).1 = .ok none

/-- The key is reserved by the command: its pending record is there, and no other command with the
key is granted before that record expires. -/
structure ReservedBy (d : Dispatch World) (key : String) (controller : RuntimeController Store) :
    Prop where
  pending : ∃ record : IdempotencyRecord,
    @LawfulStore.seen Store World _ _ controller.idempotency key = some record ∧
      record.status = .pending ∧ record.requestHash = hashPayload d.command.payload
  exclusive : ∀ later : Dispatch World, later.command.idempotencyKey = some key →
    (∀ record, @LawfulStore.seen Store World _ _ controller.idempotency key = some record →
      KeepingStore.live later.lookup controller.idempotency record) → ¬ Granted later controller

/-- A result of the command's payload with an error status is found under the key, and can be
removed. -/
def FindsFailed (d : Dispatch World) (key : String) (controller : RuntimeController Store) : Prop :=
  checkLifecycleReadiness controller.lifecycle = none ∧
    ∃ record status body,
      IdempotencyStore.get d.lookup controller.idempotency key = .ok (some record) ∧
        record.requestHash = hashPayload d.command.payload ∧
        record.status = .resolved status body ∧ status ≥ 400 ∧
        (IdempotencyStore.remove d.before controller.idempotency key).1 = .ok ()

/-- The record that `pre_dispatch` inserts. -/
def reservation (d : Dispatch World) (key : String) : IdempotencyRecord :=
  ⟨key, hashPayload d.command.payload, .pending, d.pendingAtMs⟩

variable {key : String} {controller : RuntimeController Store}

omit [LawfulStore Store World] [KeepingStore Store World] in
theorem preDispatch_failed {d : Dispatch World} (hkey : d.command.idempotencyKey = some key)
    (h : FindsFailed d key controller) :
    preDispatch d controller = (.ok none, { controller with
      idempotency := (IdempotencyStore.remove d.before controller.idempotency key).2 }) := by
  obtain ⟨hready, record, status, body, hget, hhash, hstatus, herror, hremoved⟩ := h
  unfold preDispatch
  simp only [hready, hkey, hget, hstatus]
  rw [if_neg (not_not.2 hhash), if_pos herror, hremoved]
  rfl

omit [LawfulStore Store World] [KeepingStore Store World] in
/-- What a grant did. -/
theorem granted_cases {d : Dispatch World} (hkey : d.command.idempotencyKey = some key)
    (h : Granted d controller) :
    FindsFailed d key controller ∨
      (IdempotencyStore.insert d.before controller.idempotency (reservation d key)).1 = .ok () ∧
        (preDispatch d controller).2.idempotency =
          (IdempotencyStore.insert d.before controller.idempotency (reservation d key)).2 := by
  unfold Granted preDispatch at h
  unfold preDispatch
  cases hready : checkLifecycleReadiness controller.lifecycle with
  | some rejection =>
    rw [hready] at h
    cases h
  | none =>
    simp only [hready, hkey] at h ⊢
    cases hget : IdempotencyStore.get d.lookup controller.idempotency key with
    | error e =>
      rw [hget] at h
      cases h
    | ok found =>
      rw [hget] at h
      cases found with
      | none =>
        right
        dsimp only at h
        rw [reservation]
        cases hinsert : (IdempotencyStore.insert d.before controller.idempotency
            ⟨key, hashPayload d.command.payload, .pending, d.pendingAtMs⟩).1 with
        | error e =>
          rw [hinsert] at h
          cases h
        | ok _ => exact ⟨rfl, rfl⟩
      | some record =>
        left
        dsimp only at h
        split at h
        · cases h
        next hhash =>
          rw [not_not] at hhash
          cases hstatus : record.status with
          | pending =>
            rw [hstatus] at h
            cases h
          | resolved status body =>
            rw [hstatus] at h
            dsimp only at h
            by_cases herror : status ≥ 400
            · rw [if_pos herror] at h
              refine ⟨hready, record, status, body, hget, hhash, hstatus, herror, ?_⟩
              cases hremove : (IdempotencyStore.remove d.before controller.idempotency
                  key).1 with
              | error e =>
                rw [hremove] at h
                cases h
              | ok _ => rfl
            · rw [if_neg herror] at h
              cases hreplay : replayOf body with
              | error e =>
                rw [hreplay] at h
                cases h
              | ok result =>
                rw [hreplay] at h
                cases h

theorem not_granted_of_pending {later : Dispatch World} {record : IdempotencyRecord}
    (hkey : later.command.idempotencyKey = some key)
    (hseen : @LawfulStore.seen Store World _ _ controller.idempotency key = some record)
    (hlive : KeepingStore.live later.lookup controller.idempotency record)
    (hpending : record.status = .pending) : ¬ Granted later controller := by
  intro h
  unfold Granted preDispatch at h
  split at h
  · cases h
  · simp only [hkey, KeepingStore.get_of_seen hseen hlive, hpending] at h
    split at h
    · cases h
    · cases h

/-- **A grant leaves the key reserved exactly when no error status was found.** -/
theorem granted_reserves_iff {d : Dispatch World} {key : String}
    {controller : RuntimeController Store} (hkey : d.command.idempotencyKey = some key) :
    (Granted d controller → ReservedBy d key (preDispatch d controller).2) ↔
      ¬ FindsFailed d key controller := by
  constructor
  · intro h hfailed
    have hpre := preDispatch_failed hkey hfailed
    obtain ⟨record, hseen, -, -⟩ := (h (congrArg Prod.fst hpre)).pending
    obtain ⟨-, -, -, -, -, -, -, -, hremoved⟩ := hfailed
    rw [hpre, KeepingStore.seen_remove hremoved] at hseen
    cases hseen
  · intro hnot hgranted
    obtain hfailed | ⟨hinserted, hstore⟩ := granted_cases hkey hgranted
    · exact absurd hfailed hnot
    · have hseen : @LawfulStore.seen Store World _ _ (preDispatch d controller).2.idempotency key =
          some (reservation d key) := by
        rw [hstore, LawfulStore.seen_insert hinserted]
        exact Function.update_self _ _ _
      refine ⟨⟨reservation d key, hseen, rfl, rfl⟩, ?_⟩
      intro later hlater hlive
      exact not_granted_of_pending hlater hseen (hlive _ hseen) rfl

end

/-- A file store with a result of status 500 for the payload `[7]`. -/
def failedStore [Sha256] : FileIdempotencyStore :=
  ⟨none, (∅ : RecordMap).insert "request-1" ⟨"request-1", hashPayload [7], .resolved 500 "", 1⟩⟩

/-- A command with the payload, under the key of that result. -/
def retriedDispatch : Dispatch FileWorld :=
  ⟨⟨⟨"documents.create"⟩, some "request-1", [7]⟩, .ok (.acceptedWith []), ⟨2, none⟩, ⟨2, none⟩,
    ⟨3, none⟩, 2, 3⟩

/-- The JSON of no result at all. -/
@[reducible] def noResultJson : ResultJson := ⟨fun _ => .error "", fun _ => .error ""⟩

/-- The result with an error status is removed, and the command after it is granted too. -/
theorem failed_result_grants_twice :
    ¬ ∀ (_ : Sha256) (_ : ResultJson) (d : Dispatch FileWorld) (key : String)
      (controller : RuntimeController FileIdempotencyStore), d.command.idempotencyKey = some key →
        Granted d controller → ReservedBy d key (preDispatch d controller).2 := by
  intro h
  let _ := Sha256.fips
  let _ := noResultJson
  have hreserved := h Sha256.fips noResultJson retriedDispatch "request-1" ⟨.running, failedStore⟩ rfl
    (by unfold Granted; decide +kernel)
  have hagain : Granted retriedDispatch
      (preDispatch retriedDispatch ⟨.running, failedStore⟩).2 := by
    unfold Granted
    decide +kernel
  have httl : (preDispatch retriedDispatch ⟨.running, failedStore⟩).2.idempotency.ttlMs = none := by
    decide +kernel
  refine hreserved.exclusive retriedDispatch rfl (fun record _ => ?_) hagain
  simp only [KeepingStore.live, httl, isExpired, ite_self]

/-- A command is granted on an empty store. -/
theorem granted_reserves_empty : ∃ (sha : Sha256) (json : ResultJson),
    sha = Sha256.fips ∧ json = noResultJson ∧
      ReservedBy retriedDispatch "request-1"
        (preDispatch retriedDispatch
          (⟨.running, ⟨none, ∅⟩⟩ : RuntimeController FileIdempotencyStore)).2 := by
  let _ := Sha256.fips
  let _ := noResultJson
  refine ⟨Sha256.fips, noResultJson, rfl, rfl, (granted_reserves_iff rfl).2 ?_ ?_⟩
  · rintro ⟨-, record, status, body, hget, -⟩
    simp [IdempotencyStore.get] at hget
  · unfold Granted
    decide

end AppCore.Core
