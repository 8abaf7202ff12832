import AppCore.Base.Runs
import AppCore.Core.Requests

/-!
# Reservations that outlive their request

A request that runs its handler has its key reserved by a pending record, and `post_dispatch`
replaces or removes it. A handler that panics skips `post_dispatch`: the HTTP endpoint answers with
a failure, and the record stays.

* `no_orphaned_reservation` — while no handler of a keyed request panics, a key is reserved only
  while a request with it is handled, whatever the lifecycle does meanwhile.

The lifecycle decides nothing but whether a request is let in, so a run is, but for the requests that
are turned away, one of the server that is always running (`awake_step`).
-/

namespace AppCore.Core

/-- What happens to a server: a step of a request, or a change of the lifecycle. -/
inductive ServerStep where
  | request (step : RequestStep)
  | lifecycle (state : RuntimeLifecycleState)

section

variable [Sha256] [ResultJson]

namespace CommandServer

def serve (s : CommandServer) : ServerStep → CommandServer
  | .request step => s.step step
  | .lifecycle state => { s with controller := { s.controller with lifecycle := state } }

/-- The steps of a server can always be made. -/
def serveStep (s : CommandServer) (e : ServerStep) : Option CommandServer := some (s.serve e)

/-- The same server, running. -/
def awake (s : CommandServer) : CommandServer :=
  { s with controller := { s.controller with lifecycle := .running } }

/-- A request with this key is being processed. -/
def Processes (s : CommandServer) (key : String) : Prop :=
  ∃ i a, s.handling i = some a ∧ a.key = some key

/-- Every pending record belongs to a request that is being processed. -/
def Owned (s : CommandServer) : Prop :=
  ∀ (key : String) (record : IdempotencyRecord),
    s.controller.idempotency.seen[key]? = some record → record.status = .pending → s.Processes key

/-- No key is refused as pending, or has a pending record, when no request with it is processed. -/
def Free (s : CommandServer) : Prop :=
  ∀ key, ¬ s.Processes key →
    (∀ record : IdempotencyRecord, s.controller.idempotency.seen[key]? = some record →
      record.status ≠ .pending) ∧
    ∀ d : Dispatch Unit, d.command.idempotencyKey = some key →
      (preDispatch d s.controller).1 ≠ .error (.idempotencyPending key)

/-- A handler of a keyed request does not panic, and what it returns has a JSON text. -/
def Returns (s : CommandServer) : ServerStep → Prop
  | .request (.panicked request) =>
    ∀ d, s.handling request = some ⟨d, false⟩ → d.command.idempotencyKey = none
  | .request (.finish request) =>
    ∀ d result, s.handling request = some ⟨d, true⟩ → d.outcome = .ok result →
      ∃ text, ResultJson.toString result = .ok text
  | _ => True

end CommandServer

end

/-! ## The first and the last step -/

section

variable [Sha256] [ResultJson] {d : Dispatch Unit}
  {controller : RuntimeController InMemoryIdempotencyStore}

/-- A controller that is ready answers as one that runs. -/
theorem preDispatch_awake (hready : checkLifecycleReadiness controller.lifecycle = none) :
    preDispatch d { controller with lifecycle := .running } =
      ((preDispatch d controller).1, { (preDispatch d controller).2 with lifecycle := .running }) := by
  unfold preDispatch
  rw [hready]
  dsimp only [checkLifecycleReadiness]
  cases d.command.idempotencyKey with
  | none => rfl
  | some key =>
    dsimp only [IdempotencyStore.get]
    cases controller.idempotency.seen[key]? with
    | none => rfl
    | some record =>
      dsimp only
      by_cases hhash : record.requestHash = hashPayload d.command.payload
      · rw [if_neg (not_not.2 hhash), if_neg (not_not.2 hhash)]
        cases record.status with
        | pending => rfl
        | resolved status body =>
          dsimp only
          by_cases hstatus : status ≥ 400
          · rw [if_pos hstatus, if_pos hstatus]
          · rw [if_neg hstatus, if_neg hstatus]
      · rw [if_pos hhash, if_pos hhash]

theorem preDispatch_asleep {rejection : CommandResult}
    (hrejection : checkLifecycleReadiness controller.lifecycle = some rejection) :
    preDispatch d controller = (.ok (some (.ok rejection)), controller) := by
  unfold preDispatch
  rw [hrejection]

theorem postDispatch_awake :
    (postDispatch d { controller with lifecycle := .running }).2 =
      { (postDispatch d controller).2 with lifecycle := .running } := by
  unfold postDispatch
  cases d.command.idempotencyKey with
  | none => rfl
  | some key =>
    dsimp only
    cases d.outcome with
    | error e => rfl
    | ok result =>
      dsimp only
      cases ResultJson.toString result with
      | error message => rfl
      | ok text => rfl

theorem validateKey_of_preDispatch {key : String} {controller' :
    RuntimeController InMemoryIdempotencyStore} (hkey : d.command.idempotencyKey = some key)
    (hrunning : controller.lifecycle = .running)
    (hfree : controller.idempotency.seen[key]? = none)
    (hpre : preDispatch d controller = (.ok none, controller')) : validateKey key = .ok () := by
  unfold preDispatch at hpre
  rw [hrunning] at hpre
  simp only [checkLifecycleReadiness, hkey, IdempotencyStore.get, hfree,
    IdempotencyStore.insert] at hpre
  cases hvalid : validateKey key with
  | ok _ => rfl
  | error e =>
    rw [hvalid] at hpre
    cases hpre

/-- A request refused as pending found a pending record. -/
theorem pending_of_preDispatch {key : String} (hkey : d.command.idempotencyKey = some key)
    (hpre : (preDispatch d controller).1 = .error (.idempotencyPending key)) :
    ∃ record : IdempotencyRecord, controller.idempotency.seen[key]? = some record ∧
      record.status = .pending := by
  unfold preDispatch at hpre
  cases hready : checkLifecycleReadiness controller.lifecycle with
  | some rejection =>
    rw [hready] at hpre
    cases hpre
  | none =>
    rw [hready] at hpre
    simp only [hkey, IdempotencyStore.get, IdempotencyStore.insert, IdempotencyStore.remove] at hpre
    cases hseen : controller.idempotency.seen[key]? with
    | none =>
      simp only [hseen] at hpre
      cases hvalid : validateKey key with
      | ok _ =>
        rw [hvalid] at hpre
        cases hpre
      | error e =>
        rw [hvalid] at hpre
        unfold validateKey at hvalid
        split at hvalid
        · cases hvalid
        · cases hvalid
          cases hpre
    | some record =>
      simp only [hseen] at hpre
      split at hpre
      · cases hpre
      next =>
        cases hstatus : record.status with
        | pending => exact ⟨record, rfl, hstatus⟩
        | resolved status body =>
          rw [hstatus] at hpre
          dsimp only at hpre
          split at hpre
          · cases hpre
          next =>
            unfold replayOf at hpre
            split at hpre
            · cases hpre
            · split at hpre <;> cases hpre

/-- After the last step the record of the request is not pending. -/
theorem postDispatch_released {key : String} (hkey : d.command.idempotencyKey = some key)
    (hvalid : validateKey key = .ok ())
    (hjson : ∀ result, d.outcome = .ok result → ∃ text, ResultJson.toString result = .ok text)
    {record : IdempotencyRecord}
    (hseen : (postDispatch d controller).2.idempotency.seen[key]? = some record) :
    record.status ≠ .pending := by
  cases houtcome : d.outcome with
  | error e =>
    unfold postDispatch at hseen
    simp [hkey, houtcome, IdempotencyStore.remove] at hseen
  | ok result =>
    obtain ⟨text, htext⟩ := hjson result houtcome
    have hok : (postDispatch d controller).1 = .ok () := by
      unfold postDispatch
      simp [hkey, houtcome, htext, IdempotencyStore.insert, hvalid]
    obtain ⟨_, -, hstored⟩ := postDispatch_stored hkey houtcome hok
    rw [hstored] at hseen
    cases hseen
    simp

end

/-! ## Runs -/

section

variable [Sha256] [ResultJson] {s : CommandServer}

/-- A step is one of the running server, or turns a request away. -/
theorem awake_step (s : CommandServer) (step : RequestStep) :
    (s.step step).awake = s.awake.step step ∨ (s.step step).awake = s.awake := by
  cases step with
  | arrive request d =>
    simp only [CommandServer.step]
    by_cases hbusy : (s.handling request).isSome
    · left
      have hawake : (s.awake.handling request).isSome := hbusy
      rw [if_pos hbusy, if_pos hawake]
    · have hawake : ¬ (s.awake.handling request).isSome := hbusy
      rw [if_neg hbusy, if_neg hawake]
      dsimp only [CommandServer.awake]
      cases hready : checkLifecycleReadiness s.controller.lifecycle with
      | some rejection =>
        right
        rw [preDispatch_asleep hready]
      | none =>
        left
        rw [preDispatch_awake hready]
        obtain ⟨answer, controller⟩ := preDispatch d s.controller
        cases answer with
        | error e => rfl
        | ok answer => cases answer <;> rfl
  | handled request =>
    left
    simp only [CommandServer.step, CommandServer.awake]
    split <;> rfl
  | panicked request =>
    left
    simp only [CommandServer.step, CommandServer.awake]
    split <;> rfl
  | finish request =>
    left
    simp only [CommandServer.step, CommandServer.awake]
    split
    · rw [postDispatch_awake]
    · rfl

/-- The keys in use are reserved by their requests alone. -/
structure Held (s : CommandServer) : Prop where
  reserved : Reserved s
  owned : s.Owned
  valid : ∀ i a key, s.handling i = some a → a.key = some key → validateKey key = .ok ()

omit [Sha256] [ResultJson] in
theorem held_start : Held CommandServer.start where
  reserved := reserved_start
  owned := by simp [CommandServer.Owned, CommandServer.start]
  valid := by simp [CommandServer.start]

omit [Sha256] [ResultJson] in
/-- A request that is replaced by one of the same key, or that had none, leaves the others. -/
theorem Held.update (h : Held s) (request : Nat) (new : Option Handling)
    (hnew : ∀ b, new = some b → ∃ a, s.handling request = some a ∧ a.key = b.key)
    (hold : ∀ a key, s.handling request = some a → a.key = some key →
      ∃ b, new = some b ∧ b.key = some key) :
    Held { s with handling := Function.update s.handling request new } where
  reserved := h.reserved.update request new hnew
  owned := by
    intro key record hseen hpending
    obtain ⟨i, a, ha, hakey⟩ := h.owned key record hseen hpending
    by_cases hi : i = request
    · cases hi
      obtain ⟨b, hb, hbkey⟩ := hold a key ha hakey
      exact ⟨request, b, by simp [hb], hbkey⟩
    · exact ⟨i, a, by simp [hi, ha], hakey⟩
  valid := by
    intro i a key ha hakey
    obtain ⟨b, hb, heq⟩ := handling_update hnew ha
    exact h.valid i b key hb (heq.trans hakey)

theorem Held.arrive (h : Held s) (request : Nat) (d : Dispatch Unit) :
    Held (s.step (.arrive request d)) := by
  have hreserved := h.reserved.step (.arrive request d)
  simp only [CommandServer.step] at hreserved ⊢
  split
  · exact h
  next hbusy =>
    rw [if_neg hbusy] at hreserved
    have hidle : s.handling request = none := by simpa using hbusy
    obtain ⟨hanswer, hsame⟩ | ⟨hkey, hpre⟩ | ⟨key, hkey, hfree, hpre⟩ :=
      preDispatch_cases (d := d) h.reserved.running h.reserved.successful
    · split
      next heq =>
        rw [heq] at hanswer
        exact absurd rfl hanswer
      next heq =>
        rw [heq] at hsame
        obtain rfl := hsame
        exact h
    · rw [hpre] at hreserved ⊢
      refine ⟨hreserved, ?_, ?_⟩
      · intro key record hseen hpending
        obtain ⟨i, a, ha, hakey⟩ := h.owned key record hseen hpending
        have hi : i ≠ request := by
          rintro rfl
          rw [hidle] at ha
          cases ha
        exact ⟨i, a, by simp [hi, ha], hakey⟩
      · intro i a key ha hakey
        dsimp only at ha
        rw [Function.update_apply] at ha
        split at ha
        · cases ha
          rw [Handling.key, hkey] at hakey
          cases hakey
        · exact h.valid i a key ha hakey
    · have hvalid := validateKey_of_preDispatch hkey h.reserved.running hfree hpre
      rw [hpre] at hreserved ⊢
      refine ⟨hreserved, ?_, ?_⟩
      · intro key' record hseen hpending
        dsimp only at hseen
        rw [Std.ExtTreeMap.getElem?_insert] at hseen
        split at hseen
        next heq =>
          cases Std.LawfulEqOrd.eq_of_compare heq
          exact ⟨request, ⟨d, false⟩, by simp, hkey⟩
        next =>
          obtain ⟨i, a, ha, hakey⟩ := h.owned key' record hseen hpending
          have hi : i ≠ request := by
            rintro rfl
            rw [hidle] at ha
            cases ha
          exact ⟨i, a, by simp [hi, ha], hakey⟩
      · intro i a key' ha hakey
        dsimp only at ha
        rw [Function.update_apply] at ha
        split at ha
        · cases ha
          rw [Handling.key, hkey] at hakey
          cases hakey
          exact hvalid
        · exact h.valid i a key' ha hakey

theorem Held.finish (h : Held s) (request : Nat)
    (hjson : s.Returns (.request (.finish request))) : Held (s.step (.finish request)) := by
  have hreserved := h.reserved.step (.finish request)
  simp only [CommandServer.step] at hreserved ⊢
  split
  next d hd =>
    rw [hd] at hreserved
    obtain ⟨-, -, hsame⟩ := postDispatch_cases (d := d) h.reserved.successful
    refine ⟨hreserved, ?_, ?_⟩
    · intro key record hseen hpending
      by_cases hkey : d.command.idempotencyKey = some key
      · have hvalid := h.valid request _ key hd hkey
        exact absurd hpending
          (postDispatch_released hkey hvalid (fun result hresult => hjson d result hd hresult) hseen)
      · have hbefore := hseen
        dsimp only at hbefore
        rw [hsame key hkey] at hbefore
        obtain ⟨i, a, ha, hakey⟩ := h.owned key record hbefore hpending
        have hi : i ≠ request := by
          rintro rfl
          rw [hd] at ha
          cases ha
          exact hkey hakey
        exact ⟨i, a, by simp [hi, ha], hakey⟩
    · intro i a key ha hakey
      dsimp only at ha
      rw [Function.update_apply] at ha
      split at ha
      · cases ha
      · exact h.valid i a key ha hakey
  next => exact h

/-- **Every step of a handler that returns keeps the reservations owned.** -/
theorem Held.step (h : Held s) {step : RequestStep} (hreturns : s.Returns (.request step)) :
    Held (s.step step) := by
  cases step with
  | arrive request d => exact h.arrive request d
  | handled request =>
    simp only [CommandServer.step]
    split
    next d hd =>
      refine h.update request _ ?_ ?_
      · rintro _ ⟨⟩
        exact ⟨_, hd, rfl⟩
      · intro a key ha hakey
        rw [hd] at ha
        cases ha
        exact ⟨_, rfl, hakey⟩
    next => exact h
  | panicked request =>
    simp only [CommandServer.step]
    split
    next d hd =>
      refine h.update request none (by simp) ?_
      intro a key ha hakey
      rw [hd] at ha
      cases ha
      rw [Handling.key, hreturns d hd] at hakey
      cases hakey
    next => exact h
  | finish request => exact h.finish request hreturns

theorem held_serve {e : ServerStep} (h : Held s.awake) (hreturns : s.Returns e) :
    Held (s.serve e).awake := by
  cases e with
  | lifecycle state => exact h
  | request step =>
    obtain hstep | hsame := awake_step s step
    · show Held (s.step step).awake
      rw [hstep]
      apply h.step
      cases step <;> exact hreturns
    · show Held (s.step step).awake
      rw [hsame]
      exact h

theorem free_of_held (h : Held s.awake) : s.Free := by
  intro key hidle
  have hfree : ∀ record : IdempotencyRecord, s.controller.idempotency.seen[key]? = some record →
      record.status ≠ .pending :=
    fun record hseen hpending => hidle (h.owned key record hseen hpending)
  refine ⟨hfree, ?_⟩
  intro d hkey hrefused
  obtain ⟨record, hseen, hpending⟩ := pending_of_preDispatch hkey hrefused
  exact hfree record hseen hpending

/-- **No reservation outlives its request** while no handler of a keyed request panics: a key is
pending only while a request with it is processed. -/
theorem no_orphaned_reservation (steps : List ServerStep)
    (hsteps : EachStep CommandServer.serveStep CommandServer.Returns CommandServer.start steps) :
    Throughout CommandServer.serveStep CommandServer.Free CommandServer.start steps := by
  have hheld : Throughout CommandServer.serveStep (fun s => Held s.awake) CommandServer.start
      steps := by
    refine throughout_of_step held_start ?_ hsteps
    intro s e s' h hreturns hstep
    cases hstep
    exact held_serve h hreturns
  exact hheld.imp fun s h => free_of_held h

end

def RequestStep.number : RequestStep → Nat
  | arrive request _ => request
  | handled request => request
  | panicked request => request
  | finish request => request

/-- The other requests are where they were. -/
theorem handling_step_of_ne [Sha256] [ResultJson] (s : CommandServer) (step : RequestStep) {i : Nat}
    (hi : i ≠ step.number) : (s.step step).handling i = s.handling i := by
  cases step with
  | arrive request d =>
    simp only [CommandServer.step]
    split
    · rfl
    · split
      · exact Function.update_of_ne hi _ _
      · rfl
  | handled request =>
    simp only [CommandServer.step]
    split
    · exact Function.update_of_ne hi _ _
    · rfl
  | panicked request =>
    simp only [CommandServer.step]
    split
    · exact Function.update_of_ne hi _ _
    · rfl
  | finish request =>
    simp only [CommandServer.step]
    split
    · exact Function.update_of_ne hi _ _
    · rfl

theorem runFrom_requests [Sha256] [ResultJson] (s : CommandServer) (steps : List RequestStep) :
    runFrom CommandServer.serveStep s (steps.map .request) =
      some (steps.foldl CommandServer.step s) := by
  induction steps generalizing s with
  | nil => rfl
  | cons step steps ih => exact ih (s.step step)

/-- A handler that panics, with its key reserved. -/
def panickedRequest : List RequestStep :=
  [.arrive 0 (acceptedDispatch "documents.create"), .panicked 0]

theorem not_processes_panicked [Sha256] [ResultJson] (key : String)
    (hgone : (CommandServer.run panickedRequest).handling 0 = none) :
    ¬ (CommandServer.run panickedRequest).Processes key := by
  rintro ⟨i, a, ha, -⟩
  by_cases hi : i = 0
  · cases hi
    rw [hgone] at ha
    cases ha
  · have hnone : (CommandServer.run panickedRequest).handling i = none := by
      show ((CommandServer.start.step (.arrive 0 _)).step (.panicked 0)).handling i = none
      rw [handling_step_of_ne _ _ hi, handling_step_of_ne _ _ hi]
      rfl
    rw [hnone] at ha
    cases ha

/-- **A panic keeps the key reserved**: the same request is refused as pending from then on. -/
theorem panic_keeps_reservation :
    ¬ ∀ [Sha256] [ResultJson] (steps : List ServerStep),
      Throughout CommandServer.serveStep CommandServer.Free CommandServer.start steps := by
  intro hclaim
  let _ := Sha256.fips
  let _ := plainResultJson
  have hfree : (CommandServer.run panickedRequest).Free :=
    hclaim (panickedRequest.map .request) _ [] _
      (List.append_nil _).symm (runFrom_requests _ _)
  obtain ⟨-, hanswer⟩ := hfree "request-1" (not_processes_panicked _ (by decide))
  exact hanswer (acceptedDispatch "documents.create") rfl (by decide +kernel)

/-- A request is handled to its end while the runtime shuts down. -/
theorem no_orphaned_reservation_sample : ∃ (sha : Sha256) (json : ResultJson),
    sha = Sha256.fips ∧ json = plainResultJson ∧
    Throughout CommandServer.serveStep CommandServer.Free CommandServer.start
      [.request (.arrive 0 (acceptedDispatch "documents.create")), .lifecycle .shuttingDown,
        .request (.handled 0), .request (.finish 0)] := by
  let _ := Sha256.fips
  let _ := plainResultJson
  refine ⟨Sha256.fips, plainResultJson, rfl, rfl, no_orphaned_reservation _ ?_⟩
  simp only [eachStep_cons]
  refine ⟨trivial, fun s₁ h₁ => ⟨trivial, fun s₂ h₂ => ⟨trivial, fun s₃ h₃ => ⟨?_, fun s₄ _ =>
    eachStep_nil _ _⟩⟩⟩⟩
  intro d result hd houtcome
  cases h₁
  cases h₂
  cases h₃
  have hsame : ((((CommandServer.start.serve (.request (.arrive 0
      (acceptedDispatch "documents.create")))).serve (.lifecycle .shuttingDown)).serve
      (.request (.handled 0))).handling 0).map (fun a => a.dispatch) =
        some (acceptedDispatch "documents.create") := by decide
  rw [hd] at hsame
  cases hsame
  cases houtcome
  exact ⟨_, rfl⟩

end AppCore.Core
