import AppCore.Core.ControllerProof

/-!
# Requests that share a key

`dispatch_command_request` of the HTTP endpoint: `pre_dispatch` under the lock of the controller,
the handler without it, and `post_dispatch` under it again. Any number of requests are between
these steps at a time, and a handler may panic. The store is the one in memory.

* `at_most_once` — one handler at a time for a key, none after a result was stored, and that result
  or a conflict for every request that comes later.

A pending record reserves the key for the request that made it. While that request is on its way
no other one gets past the first step, so the record is still there when it comes back.
-/

namespace AppCore.Core

/-- A request whose handler was invoked, and whether the handler has returned. -/
structure Handling where
  dispatch : Dispatch Unit
  returned : Bool
  deriving DecidableEq

/-- The key of a request. -/
abbrev Handling.key (h : Handling) : Option String := h.dispatch.command.idempotencyKey

/-- The controller and the requests whose handlers were invoked, by their numbers. -/
structure CommandServer where
  controller : RuntimeController InMemoryIdempotencyStore
  handling : Nat → Option Handling

inductive RequestStep where
  | arrive (request : Nat) (d : Dispatch Unit)
  | handled (request : Nat)
  | panicked (request : Nat)
  | finish (request : Nat)

section

variable [Sha256] [ResultJson]

namespace CommandServer

/-- A running controller with an empty store. -/
def start : CommandServer := ⟨⟨.running, ⟨∅⟩⟩, fun _ => none⟩

def step (s : CommandServer) : RequestStep → CommandServer
  | .arrive request d =>
    if (s.handling request).isSome then s
    else match preDispatch d s.controller with
      | (.ok none, controller) =>
        ⟨controller, Function.update s.handling request (some ⟨d, false⟩)⟩
      | (_, controller) => { s with controller := controller }
  | .handled request =>
    match s.handling request with
    | some ⟨d, false⟩ =>
      { s with handling := Function.update s.handling request (some ⟨d, true⟩) }
    | _ => s
  | .panicked request =>
    match s.handling request with
    | some ⟨_, false⟩ => { s with handling := Function.update s.handling request none }
    | _ => s
  | .finish request =>
    match s.handling request with
    | some ⟨d, true⟩ =>
      ⟨(postDispatch d s.controller).2, Function.update s.handling request none⟩
    | _ => s

/-- The steps in their order. -/
def run (steps : List RequestStep) : CommandServer := steps.foldl step start

end CommandServer

end

/-! ## One critical section -/

variable {d : Dispatch Unit} {controller : RuntimeController InMemoryIdempotencyStore}

/-- The status codes of the records are those of successes. -/
def Successful (controller : RuntimeController InMemoryIdempotencyStore) : Prop :=
  ∀ (key : String) (record : IdempotencyRecord) (status : UInt16) (body : String),
    controller.idempotency.seen[key]? = some record → record.status = .resolved status body →
      status < 400

section

variable [Sha256] [ResultJson]

/-- The record that reserves a key. -/
def pendingRecord (d : Dispatch Unit) (key : String) : IdempotencyRecord :=
  ⟨key, hashPayload d.command.payload, .pending, d.pendingAtMs⟩

/-- What the first step does: it answers, or lets a command without a key pass, or reserves a key
that is free. -/
theorem preDispatch_cases (hrunning : controller.lifecycle = .running)
    (hsuccess : Successful controller) :
    (preDispatch d controller).1 ≠ .ok none ∧ (preDispatch d controller).2 = controller ∨
    d.command.idempotencyKey = none ∧ preDispatch d controller = (.ok none, controller) ∨
    ∃ key, d.command.idempotencyKey = some key ∧ controller.idempotency.seen[key]? = none ∧
      preDispatch d controller = (.ok none, { controller with
        idempotency := ⟨controller.idempotency.seen.insert key (pendingRecord d key)⟩ }) := by
  unfold preDispatch
  rw [hrunning]
  simp only [checkLifecycleReadiness, IdempotencyStore.get, IdempotencyStore.insert]
  cases hkey : d.command.idempotencyKey with
  | none => exact .inr (.inl ⟨rfl, rfl⟩)
  | some key =>
    cases hseen : controller.idempotency.seen[key]? with
    | none =>
      simp only [hseen]
      cases hvalid : validateKey key with
      | error e => exact .inl ⟨by simp [Except.map], by simp [← hrunning]⟩
      | ok _ =>
        refine .inr (.inr ⟨key, rfl, hseen, ?_⟩)
        simp [Except.map, pendingRecord, ← hrunning]
    | some record =>
      left
      simp only [hseen]
      by_cases hhash : record.requestHash = hashPayload d.command.payload
      · rw [if_neg (not_not.2 hhash)]
        cases hstatus : record.status with
        | pending => exact ⟨by simp, rfl⟩
        | resolved status body =>
          have hlt := hsuccess key record status body hseen hstatus
          dsimp only
          rw [if_neg (by simpa using hlt)]
          refine ⟨?_, rfl⟩
          cases replayOf body <;> simp [Except.map]
      · rw [if_pos hhash]
        exact ⟨by simp, rfl⟩

/-- The last step leaves the record of every other key alone, and does not leave a failure. -/
theorem postDispatch_cases (hsuccess : Successful controller) :
    (postDispatch d controller).2.lifecycle = controller.lifecycle ∧
      Successful (postDispatch d controller).2 ∧
      ∀ key, d.command.idempotencyKey ≠ some key →
        (postDispatch d controller).2.idempotency.seen[key]? =
          controller.idempotency.seen[key]? := by
  unfold postDispatch
  cases hkey : d.command.idempotencyKey with
  | none => exact ⟨rfl, hsuccess, fun _ _ => rfl⟩
  | some key =>
    cases d.outcome with
    | error e =>
      refine ⟨rfl, fun key' record status body hseen => ?_, fun key' hne => ?_⟩
      · exact hsuccess key' record status body (getElem?_of_erase hseen)
      · have hne : key ≠ key' := fun h => hne (congrArg some h)
        simp [IdempotencyStore.remove, Std.ExtTreeMap.getElem?_erase, hne]
    | ok result =>
      dsimp only
      cases ResultJson.toString result with
      | error message => exact ⟨rfl, hsuccess, by simp⟩
      | ok text =>
        simp only [IdempotencyStore.insert]
        cases validateKey key with
        | error e => exact ⟨trivial, hsuccess, by simp⟩
        | ok _ =>
          refine ⟨trivial, fun key' record status body hseen => ?_, fun key' hne => ?_⟩
          · dsimp only at hseen
            rw [Std.ExtTreeMap.getElem?_insert] at hseen
            split at hseen
            · obtain rfl := Option.some.inj hseen
              rintro h
              cases h
              decide
            · exact hsuccess key' record status body hseen
          · have hne : key ≠ key' := fun h => hne (congrArg some h)
            simp [Std.ExtTreeMap.getElem?_insert, hne]

theorem postDispatch_stored {key : String} {result : CommandResult}
    (hkey : d.command.idempotencyKey = some key) (houtcome : d.outcome = .ok result)
    (hok : (postDispatch d controller).1 = .ok ()) :
    ∃ text, ResultJson.toString result = .ok text ∧
      (postDispatch d controller).2.idempotency.seen[key]? =
        some ⟨key, hashPayload d.command.payload, .resolved 200 text, d.resolvedAtMs⟩ := by
  unfold postDispatch at hok ⊢
  simp only [hkey, houtcome, IdempotencyStore.insert] at hok ⊢
  cases htext : ResultJson.toString result with
  | error message => simp [htext] at hok
  | ok text =>
    simp only [htext] at hok ⊢
    cases hvalid : validateKey key with
    | error e => simp [hvalid] at hok
    | ok _ => exact ⟨text, rfl, by simp⟩

end

/-! ## All requests -/

/-- A key that is being handled is reserved by the one request that handles it. -/
structure Reserved (s : CommandServer) : Prop where
  running : s.controller.lifecycle = .running
  successful : Successful s.controller
  unique : ∀ i j a b key, s.handling i = some a → s.handling j = some b → a.key = some key →
    b.key = some key → i = j
  pending : ∀ i a key, s.handling i = some a → a.key = some key →
    ∃ record : IdempotencyRecord, s.controller.idempotency.seen[key]? = some record ∧
      record.status = .pending

theorem reserved_start : Reserved CommandServer.start where
  running := rfl
  successful := by simp [Successful, CommandServer.start]
  unique := by simp [CommandServer.start]
  pending := by simp [CommandServer.start]

theorem handling_update {handling : Nat → Option Handling} {request : Nat} {new : Option Handling}
    (hnew : ∀ b, new = some b → ∃ a, handling request = some a ∧ a.key = b.key) {i : Nat}
    {a : Handling} (ha : Function.update handling request new i = some a) :
    ∃ b, handling i = some b ∧ b.key = a.key := by
  rw [Function.update_apply] at ha
  split at ha
  · rename_i heq
    exact heq ▸ hnew a ha
  · exact ⟨a, ha, rfl⟩

variable {s : CommandServer}

theorem Reserved.update (h : Reserved s) (request : Nat) (new : Option Handling)
    (hnew : ∀ b, new = some b → ∃ a, s.handling request = some a ∧ a.key = b.key) :
    Reserved { s with handling := Function.update s.handling request new } := by
  refine ⟨h.running, h.successful, fun i j a b key ha hb hakey hbkey => ?_,
    fun i a key ha hakey => ?_⟩
  · obtain ⟨a', ha', heq⟩ := handling_update hnew ha
    obtain ⟨b', hb', heq'⟩ := handling_update hnew hb
    exact h.unique i j a' b' key ha' hb' (heq.trans hakey) (heq'.trans hbkey)
  · obtain ⟨a', ha', heq⟩ := handling_update hnew ha
    exact h.pending i a' key ha' (heq.trans hakey)

/-- A command without a key is let in. -/
theorem Reserved.admit_plain (h : Reserved s) (request : Nat)
    (hkey : d.command.idempotencyKey = none) :
    Reserved { s with handling := Function.update s.handling request (some ⟨d, false⟩) } := by
  have hold : ∀ i a key, Function.update s.handling request (some ⟨d, false⟩) i = some a →
      a.key = some key → s.handling i = some a := by
    intro i a key ha hakey
    rw [Function.update_apply] at ha
    split at ha
    · obtain rfl := Option.some.inj ha
      rw [Handling.key, hkey] at hakey
      cases hakey
    · exact ha
  exact ⟨h.running, h.successful,
    fun i j a b key ha hb hakey hbkey =>
      h.unique i j a b key (hold i a key ha hakey) (hold j b key hb hbkey) hakey hbkey,
    fun i a key ha hakey => h.pending i a key (hold i a key ha hakey) hakey⟩

/-- A command whose key is free reserves it. -/
theorem Reserved.admits (h : Reserved s) (request : Nat) {key : String} {record : IdempotencyRecord}
    (hkey : d.command.idempotencyKey = some key)
    (hfree : s.controller.idempotency.seen[key]? = none) (hpending : record.status = .pending) :
    Reserved ⟨{ s.controller with idempotency := ⟨s.controller.idempotency.seen.insert key record⟩ },
      Function.update s.handling request (some ⟨d, false⟩)⟩ := by
  have hold : ∀ i a key', Function.update s.handling request (some ⟨d, false⟩) i = some a →
      a.key = some key' → i = request ∧ key' = key ∨ s.handling i = some a ∧ key' ≠ key := by
    intro i a key' ha hakey
    rw [Function.update_apply] at ha
    split at ha
    · obtain rfl := Option.some.inj ha
      exact .inl ⟨‹_›, Option.some.inj (hakey.symm.trans hkey)⟩
    · refine .inr ⟨ha, ?_⟩
      rintro rfl
      obtain ⟨record, hrecord, -⟩ := h.pending i a key' ha hakey
      rw [hfree] at hrecord
      cases hrecord
  refine ⟨h.running, fun key' record' status body hseen hstatus => ?_,
    fun i j a b key' ha hb hakey hbkey => ?_, fun i a key' ha hakey => ?_⟩
  · dsimp only at hseen
    rw [Std.ExtTreeMap.getElem?_insert] at hseen
    split at hseen
    · obtain rfl := Option.some.inj hseen
      rw [hpending] at hstatus
      cases hstatus
    · exact h.successful key' record' status body hseen hstatus
  · obtain ⟨rfl, rfl⟩ | ⟨ha, hne⟩ := hold i a key' ha hakey
    · obtain ⟨rfl, -⟩ | ⟨-, hne⟩ := hold j b key' hb hbkey
      · rfl
      · exact absurd rfl hne
    · obtain ⟨-, rfl⟩ | ⟨hb, -⟩ := hold j b key' hb hbkey
      · exact absurd rfl hne
      · exact h.unique i j a b key' ha hb hakey hbkey
  · dsimp only
    obtain ⟨-, rfl⟩ | ⟨ha, hne⟩ := hold i a key' ha hakey
    · exact ⟨record, by simp, hpending⟩
    · obtain ⟨record', hrecord, hstatus⟩ := h.pending i a key' ha hakey
      refine ⟨record', ?_, hstatus⟩
      rw [Std.ExtTreeMap.getElem?_insert, if_neg (by simpa using Ne.symm hne)]
      exact hrecord

/-- The request that held a key is done with it. -/
theorem Reserved.finish [Sha256] [ResultJson] (h : Reserved s) (request : Nat)
    (hd : s.handling request = some ⟨d, true⟩) :
    Reserved ⟨(postDispatch d s.controller).2, Function.update s.handling request none⟩ := by
  obtain ⟨hlifecycle, hsuccess, hsame⟩ := postDispatch_cases (d := d) h.successful
  have hrest := h.update request none (by simp)
  refine ⟨hlifecycle.trans h.running, hsuccess, hrest.unique, fun i a key ha hakey => ?_⟩
  dsimp only
  rw [hsame key ?_]
  · exact hrest.pending i a key ha hakey
  · intro hkey
    dsimp only at ha
    rw [Function.update_apply] at ha
    split at ha
    · cases ha
    · rename_i hne
      exact hne (h.unique i request a _ key ha hd hakey hkey)

theorem Reserved.step {s : CommandServer} [Sha256] [ResultJson] (h : Reserved s)
    (step : RequestStep) : Reserved (s.step step) := by
  cases step with
  | arrive request d =>
    simp only [CommandServer.step]
    split
    · exact h
    obtain ⟨hanswer, hsame⟩ | ⟨hkey, hpre⟩ | ⟨key, hkey, hfree, hpre⟩ :=
      preDispatch_cases (d := d) h.running h.successful
    · split
      · rename_i heq
        rw [heq] at hanswer
        exact absurd rfl hanswer
      · rename_i heq
        rw [heq] at hsame
        obtain rfl := hsame
        exact h
    · rw [hpre]
      exact h.admit_plain request hkey
    · rw [hpre]
      exact h.admits request hkey hfree rfl
  | handled request =>
    simp only [CommandServer.step]
    split
    · rename_i d hd
      exact h.update request _ (by rintro _ ⟨⟩; exact ⟨_, hd, rfl⟩)
    · exact h
  | panicked request =>
    simp only [CommandServer.step]
    split
    · exact h.update request none (by simp)
    · exact h
  | finish request =>
    simp only [CommandServer.step]
    split
    · rename_i d hd
      exact h.finish request hd
    · exact h

/-! ## A key with a result -/

/-- Nobody handles the key, and its record holds the result. -/
structure Settled [ResultJson] (key payloadHash : String) (result : CommandResult)
    (s : CommandServer) : Prop where
  idle : ∀ i a, s.handling i = some a → a.key ≠ some key
  stored : ∃ text createdAtMs, ResultJson.toString result = .ok text ∧
    s.controller.idempotency.seen[key]? =
      some ⟨key, payloadHash, .resolved 200 text, createdAtMs⟩

variable {key payloadHash : String} {result : CommandResult}

theorem settled_finish [Sha256] [ResultJson] (h : Reserved s) (request : Nat)
    (hd : s.handling request = some ⟨d, true⟩) (hkey : d.command.idempotencyKey = some key)
    (houtcome : d.outcome = .ok result) (hok : (postDispatch d s.controller).1 = .ok ()) :
    Settled key (hashPayload d.command.payload) result
      ⟨(postDispatch d s.controller).2, Function.update s.handling request none⟩ := by
  obtain ⟨text, htext, hstored⟩ := postDispatch_stored hkey houtcome hok
  refine ⟨fun i a ha hakey => ?_, text, _, htext, hstored⟩
  dsimp only at ha
  rw [Function.update_apply] at ha
  split at ha
  · cases ha
  · rename_i hne
    exact hne (h.unique i request a _ key ha hd hakey hkey)

theorem Settled.update [ResultJson] (h : Settled key payloadHash result s) (request : Nat)
    (new : Option Handling)
    (hnew : ∀ b, new = some b → ∃ a, s.handling request = some a ∧ a.key = b.key) :
    Settled key payloadHash result
      { s with handling := Function.update s.handling request new } := by
  refine ⟨fun i a ha hakey => ?_, h.stored⟩
  obtain ⟨b, hb, heq⟩ := handling_update hnew ha
  exact h.idle i b hb (heq.trans hakey)

theorem Settled.admits [ResultJson] (h : Settled key payloadHash result s) (request : Nat)
    {controller : RuntimeController InMemoryIdempotencyStore}
    (hkey : d.command.idempotencyKey ≠ some key)
    (hsame : controller.idempotency.seen[key]? = s.controller.idempotency.seen[key]?) :
    Settled key payloadHash result
      ⟨controller, Function.update s.handling request (some ⟨d, false⟩)⟩ := by
  obtain ⟨text, createdAtMs, htext, hstored⟩ := h.stored
  refine ⟨fun i a ha hakey => ?_, text, createdAtMs, htext, hsame.trans hstored⟩
  dsimp only at ha
  rw [Function.update_apply] at ha
  split at ha
  · obtain rfl := Option.some.inj ha
    exact hkey hakey
  · exact h.idle i a ha hakey

theorem Settled.step {s : CommandServer} [Sha256] [ResultJson] (hr : Reserved s)
    (h : Settled key payloadHash result s) (step : RequestStep) :
    Settled key payloadHash result (s.step step) := by
  cases step with
  | arrive request d =>
    simp only [CommandServer.step]
    split
    · exact h
    obtain ⟨hanswer, hsame⟩ | ⟨hkey, hpre⟩ | ⟨key', hkey, hfree, hpre⟩ :=
      preDispatch_cases (d := d) hr.running hr.successful
    · split
      · rename_i heq
        rw [heq] at hanswer
        exact absurd rfl hanswer
      · rename_i heq
        rw [heq] at hsame
        obtain rfl := hsame
        exact h
    · rw [hpre]
      exact h.admits request (by simp [hkey]) rfl
    · rw [hpre]
      have hne : key' ≠ key := by
        rintro rfl
        obtain ⟨text, createdAtMs, -, hstored⟩ := h.stored
        rw [hfree] at hstored
        cases hstored
      refine h.admits request (by simpa [hkey] using hne) ?_
      simp [Std.ExtTreeMap.getElem?_insert, hne]
  | handled request =>
    simp only [CommandServer.step]
    split
    · rename_i d hd
      exact h.update request _ (by rintro _ ⟨⟩; exact ⟨_, hd, rfl⟩)
    · exact h
  | panicked request =>
    simp only [CommandServer.step]
    split
    · exact h.update request none (by simp)
    · exact h
  | finish request =>
    simp only [CommandServer.step]
    split
    · rename_i d hd
      have hrest := h.update request none (by simp)
      obtain ⟨text, createdAtMs, htext, hstored⟩ := h.stored
      obtain ⟨-, -, hsame⟩ := postDispatch_cases (d := d) hr.successful
      exact ⟨hrest.idle, text, createdAtMs, htext,
        (hsame key (h.idle request _ hd)).trans hstored⟩
    · exact h

/-! ## Runs -/

theorem reserved_run [Sha256] [ResultJson] (steps : List RequestStep) :
    Reserved (CommandServer.run steps) :=
  List.foldlRecOn steps CommandServer.step reserved_start fun _ h step _ => h.step step

theorem settled_run [Sha256] [ResultJson] (hr : Reserved s) (h : Settled key payloadHash result s)
    (steps : List RequestStep) :
    Settled key payloadHash result (steps.foldl CommandServer.step s) :=
  (List.foldlRecOn (motive := fun s => Reserved s ∧ Settled key payloadHash result s) steps
    CommandServer.step ⟨hr, h⟩ fun _ h step _ => ⟨h.1.step step, h.2.step h.1 step⟩).2

/-- Results survive being written and read. -/
def ResultJson.Lossless [ResultJson] : Prop :=
  ∀ result text, ResultJson.toString result = .ok text →
    text ≠ "" ∧ ResultJson.fromStr text = .ok result

/-- What a request of a key with a result gets. -/
def settledAnswer [Sha256] (key payloadHash : String) (result : CommandResult)
    (d : Dispatch Unit) : RuntimeResult (Option (RuntimeResult CommandResult)) :=
  if hashPayload d.command.payload = payloadHash then .ok (some (.ok result))
  else .error (.idempotencyConflict key)

theorem Settled.preDispatch_eq [Sha256] [ResultJson] (hjson : ResultJson.Lossless) (hr : Reserved s)
    (h : Settled key payloadHash result s) (hkey : d.command.idempotencyKey = some key) :
    (preDispatch d s.controller).1 = settledAnswer key payloadHash result d := by
  obtain ⟨text, createdAtMs, htext, hstored⟩ := h.stored
  obtain ⟨hne, hfrom⟩ := hjson result text htext
  unfold preDispatch settledAnswer
  rw [hr.running]
  simp only [checkLifecycleReadiness, hkey, IdempotencyStore.get, hstored]
  by_cases hhash : hashPayload d.command.payload = payloadHash
  · rw [if_neg (not_not.2 hhash.symm), if_neg (by decide), if_pos hhash]
    simp [replayOf, hne, hfrom, Except.map]
  · rw [if_pos (Ne.symm hhash), if_neg hhash]

/-- At most one handler runs for a key at any time. Once a request of the key has finished with a
result, none runs for it again, and whoever comes with the key gets that result, or the conflict
when the payload has another hash. -/
theorem at_most_once [Sha256] [ResultJson] (hjson : ResultJson.Lossless)
    (steps : List RequestStep) :
    (∀ i j a b key, (CommandServer.run steps).handling i = some a →
      (CommandServer.run steps).handling j = some b → a.key = some key → b.key = some key →
        i = j) ∧
    ∀ before middle later request d key result, steps = before ++ .finish request :: middle ++ later →
      (CommandServer.run before).handling request = some ⟨d, true⟩ →
      d.command.idempotencyKey = some key → d.outcome = .ok result →
      (postDispatch d (CommandServer.run before).controller).1 = .ok () →
      (∀ i a, (CommandServer.run (before ++ .finish request :: middle)).handling i = some a →
        a.key ≠ some key) ∧
      ∀ d', d'.command.idempotencyKey = some key →
        (preDispatch d' (CommandServer.run (before ++ .finish request :: middle)).controller).1 =
          settledAnswer key (hashPayload d.command.payload) result d' := by
  refine ⟨(reserved_run steps).unique, ?_⟩
  intro before middle _ request d key result _ hd hkey houtcome hok
  have hbefore := reserved_run before
  have hfinish : Settled key (hashPayload d.command.payload) result
      ((CommandServer.run before).step (.finish request)) := by
    simp only [CommandServer.step, hd]
    exact settled_finish hbefore request hd hkey houtcome hok
  have hrun : CommandServer.run (before ++ .finish request :: middle) =
      middle.foldl CommandServer.step ((CommandServer.run before).step (.finish request)) := by
    simp [CommandServer.run]
  have hsettled := settled_run (hbefore.step _) hfinish middle
  have hreserved := reserved_run (before ++ .finish request :: middle)
  rw [← hrun] at hsettled
  exact ⟨hsettled.idle, fun d' hkey' => hsettled.preDispatch_eq hjson hreserved hkey'⟩

/-- The JSON of results with no events and no message, and of no others. -/
@[reducible] def plainResultJson : ResultJson where
  toString result :=
    if result = .acceptedWith [] then
      .ok "\x7b\"accepted\":true,\"events\":[],\"message\":null\x7d"
    else .error "unsupported result"
  fromStr text :=
    if text = "\x7b\"accepted\":true,\"events\":[],\"message\":null\x7d" then
      .ok (.acceptedWith [])
    else .error "unsupported text"

theorem plainResultJson_lossless : @ResultJson.Lossless plainResultJson := by
  intro result text htext
  by_cases h : result = .acceptedWith []
  · simp only [ResultJson.toString, h, if_pos] at htext
    obtain rfl := Except.ok.inj htext
    exact ⟨by decide, by simp [ResultJson.fromStr, h]⟩
  · simp [ResultJson.toString, h] at htext

/-- A request that is handled to its end, before others come. -/
def firstRequest : List RequestStep :=
  [.arrive 0 (acceptedDispatch "documents.create"), .handled 0]

/-- The same request again gets the result, and one with another payload the conflict. -/
theorem at_most_once_retried : ∃ (sha : Sha256) (json : ResultJson),
    sha = Sha256.fips ∧ json = plainResultJson ∧
    (preDispatch (acceptedDispatch "documents.create")
      (CommandServer.run (firstRequest ++ .finish 0 :: [.arrive 1
        (acceptedDispatch "documents.create")])).controller).1 = .ok (some (.ok (.acceptedWith []))) ∧
    (preDispatch ⟨⟨⟨"documents.create"⟩, some "request-1", [8]⟩, .ok (.acceptedWith []), (), (), (), 3, 4⟩
      (CommandServer.run (firstRequest ++ .finish 0 :: [.arrive 1
        (acceptedDispatch "documents.create")])).controller).1 =
          .error (.idempotencyConflict "request-1") := by
  let _ := Sha256.fips
  let _ := plainResultJson
  refine ⟨Sha256.fips, plainResultJson, rfl, rfl, ?_⟩
  obtain ⟨-, hanswer⟩ := (at_most_once plainResultJson_lossless
    (firstRequest ++ .finish 0 :: [.arrive 1 (acceptedDispatch "documents.create")] ++ [])).2
      firstRequest [.arrive 1 (acceptedDispatch "documents.create")] [] 0
      (acceptedDispatch "documents.create") "request-1" (.acceptedWith []) rfl
      (by decide) rfl rfl (by decide)
  constructor
  · rw [hanswer _ rfl, settledAnswer, if_pos rfl]
  · rw [hanswer _ rfl, settledAnswer, if_neg (by decide +kernel)]

end AppCore.Core
