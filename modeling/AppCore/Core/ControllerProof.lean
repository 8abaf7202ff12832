import AppCore.Core.Controller

/-!
# Replays

A stored result is bound to its key and to the digest of a payload, and to nothing else of the
command that produced it.

* `answersSame_of_oneNamePerRequest` — when no two commands of a run share a key and a payload but
  not their name, every replay is of the same logical request.
-/

namespace AppCore.Core

section Dispatches

variable {Store World : Type} [Sha256] [ResultJson] [IdempotencyStore Store World]

theorem preDispatch_lifecycle (d : Dispatch World) (controller : RuntimeController Store) :
    (preDispatch d controller).2.lifecycle = controller.lifecycle := by
  unfold preDispatch
  split
  · rfl
  split
  · rfl
  split
  · rfl
  · split
    · rfl
    split
    · rfl
    split <;> rfl
  · rfl

theorem postDispatch_lifecycle (d : Dispatch World) (controller : RuntimeController Store) :
    (postDispatch d controller).2.lifecycle = controller.lifecycle := by
  unfold postDispatch
  split
  · rfl
  split
  · split <;> rfl
  · rfl

theorem dispatchCommand_state (d : Dispatch World) (controller : RuntimeController Store) :
    (dispatchCommand d controller).2 =
      if (preDispatch d controller).1 = .ok none then
        (postDispatch d (preDispatch d controller).2).2
      else (preDispatch d controller).2 := by
  unfold dispatchCommand
  rcases preDispatch d controller with ⟨e | answer, c⟩
  · simp
  · cases answer with
    | some answer => simp
    | none =>
      rcases hpost : postDispatch d c with ⟨e | u, c'⟩
      · simp [hpost]
      · simp [hpost]

theorem resolvedKey_eq_some {d : Dispatch World} {controller : RuntimeController Store}
    {key : String} : resolvedKey d controller = some key ↔
      (preDispatch d controller).1 = .ok none ∧ d.command.idempotencyKey = some key ∧
        (∃ result, d.outcome = .ok result) ∧
        (postDispatch d (preDispatch d controller).2).1 = .ok () := by
  unfold resolvedKey
  rcases hpre : preDispatch d controller with ⟨e | answer, c⟩
  · simp
  · cases answer with
    | some answer => simp
    | none =>
      cases hkey : d.command.idempotencyKey with
      | none => simp
      | some key' =>
        cases houtcome : d.outcome with
        | error e => simp
        | ok result =>
          dsimp only
          split <;> simp_all

end Dispatches

/-- A record that is not the one just inserted was there before. -/
theorem seen_of_insert {Store World : Type} [IdempotencyStore Store World]
    [LawfulStore Store World] {world : World} {store : Store} {record found : IdempotencyRecord}
    {key : String} (h : @LawfulStore.seen Store World _ _
      (IdempotencyStore.insert world store record).2 key = some found) :
    @LawfulStore.seen Store World _ _ store key = some found ∨
      key = record.key ∧ found = record ∧
        (IdempotencyStore.insert world store record).1 = .ok () := by
  cases hresult : (IdempotencyStore.insert world store record).1 with
  | error e =>
    rw [LawfulStore.seen_insert_error hresult] at h
    exact .inl h
  | ok u =>
    rw [LawfulStore.seen_insert hresult, Function.update_apply] at h
    split at h
    · rename_i hkey
      exact .inr ⟨hkey, (Option.some.inj h).symm, rfl⟩
    · exact .inl h

section Runs

variable {Store World : Type} [Sha256] [ResultJson] [IdempotencyStore Store World]
  [LawfulStore Store World]

/-- What the store says about the commands dispatched so far: a resolved record has the digest of
the payload of the command that produced it. -/
structure Known (World : Type) [IdempotencyStore Store World] [LawfulStore Store World]
    (commands : List CommandEnvelope) (t : Traced Store) : Prop where
  running : t.controller.lifecycle = .running
  resolved : ∀ key record, @LawfulStore.seen Store World _ _ t.controller.idempotency key =
      some record → record.status ≠ .pending → ∃ source, t.producer key = some source ∧
        record.requestHash = hashPayload source.payload
  produced : ∀ key source, t.producer key = some source →
    source ∈ commands ∧ source.idempotencyKey = some key ∧ validateKey key = .ok ()

/-- What a replay found. -/
theorem replay_spec {d : Dispatch World} {controller : RuntimeController Store}
    (hrunning : controller.lifecycle = .running) {answer : RuntimeResult CommandResult}
    (h : (preDispatch d controller).1 = .ok (some answer)) :
    ∃ key record, d.command.idempotencyKey = some key ∧
      @LawfulStore.seen Store World _ _ controller.idempotency key = some record ∧
      record.status ≠ .pending ∧ record.requestHash = hashPayload d.command.payload := by
  unfold preDispatch at h
  rw [hrunning] at h
  simp only [checkLifecycleReadiness] at h
  split at h
  · simp at h
  rename_i key hkey
  split at h
  · simp at h
  · rename_i record hget
    split at h
    · simp at h
    rename_i hhash
    split at h
    · simp at h
    rename_i status body hstatus
    refine ⟨key, record, hkey, LawfulStore.seen_of_get hget, ?_, not_not.1 hhash⟩
    rw [hstatus]
    simp
  · simp only [Except.map] at h
    split at h <;> simp at h

/-- Before the handler runs, no record is resolved that was not. -/
theorem preDispatch_seen {d : Dispatch World} {controller : RuntimeController Store}
    {key : String} {record : IdempotencyRecord}
    (h : @LawfulStore.seen Store World _ _ (preDispatch d controller).2.idempotency key =
      some record) (hstatus : record.status ≠ .pending) :
    @LawfulStore.seen Store World _ _ controller.idempotency key = some record := by
  unfold preDispatch at h
  split at h
  · exact h
  split at h
  · exact h
  split at h
  · exact h
  · split at h
    · exact h
    split at h
    · exact h
    split at h
    · exact LawfulStore.seen_of_remove h
    · exact h
  · rcases seen_of_insert h with h | ⟨-, rfl, -⟩
    · exact h
    · exact absurd rfl hstatus

theorem postDispatch_resolved {d : Dispatch World} {controller : RuntimeController Store}
    {key : String} {result : CommandResult} (hkey : d.command.idempotencyKey = some key)
    (houtcome : d.outcome = .ok result) (hok : (postDispatch d controller).1 = .ok ()) :
    validateKey key = .ok () ∧ ∃ body, ResultJson.toString result = .ok body ∧
      @LawfulStore.seen Store World _ _ (postDispatch d controller).2.idempotency =
        Function.update (@LawfulStore.seen Store World _ _ controller.idempotency) key
          (some ⟨key, hashPayload d.command.payload, .resolved 200 body, d.resolvedAtMs⟩) := by
  unfold postDispatch at hok ⊢
  simp only [hkey, houtcome] at hok ⊢
  split at hok
  · simp at hok
  · rename_i body hbody
    exact ⟨LawfulStore.insert_valid hok, body, hbody, LawfulStore.seen_insert hok⟩

/-- Otherwise no record is there that was not. -/
theorem postDispatch_kept {d : Dispatch World} {controller : RuntimeController Store}
    (hnot : ∀ key result, d.command.idempotencyKey = some key → d.outcome = .ok result →
      (postDispatch d controller).1 ≠ .ok ())
    {key : String} {record : IdempotencyRecord}
    (h : @LawfulStore.seen Store World _ _ (postDispatch d controller).2.idempotency key =
      some record) :
    @LawfulStore.seen Store World _ _ controller.idempotency key = some record := by
  cases hkey : d.command.idempotencyKey with
  | none => simpa only [postDispatch, hkey] using h
  | some key' =>
    cases houtcome : d.outcome with
    | error e =>
      simp only [postDispatch, hkey, houtcome] at h
      exact LawfulStore.seen_of_remove h
    | ok result =>
      have hnot := hnot key' result hkey houtcome
      simp only [postDispatch, hkey, houtcome] at h hnot
      split at h
      · exact h
      · rename_i body hbody
        rcases seen_of_insert h with h | ⟨-, -, hok⟩
        · exact h
        · rw [hbody] at hnot
          exact absurd hok hnot

/-- **The step lemma.** -/
theorem known_step {commands : List CommandEnvelope} {t : Traced Store}
    (h : Known World commands t) (d : Dispatch World) :
    Known World (commands ++ [d.command]) (t.step d) := by
  have hstate := dispatchCommand_state d t.controller
  have hproduced : ∀ key source, t.producer key = some source →
      source ∈ commands ++ [d.command] ∧ source.idempotencyKey = some key ∧
        validateKey key = .ok () := fun key source hsource =>
    ⟨List.mem_append_left _ (h.produced key source hsource).1, (h.produced key source hsource).2⟩
  have hrunning : (t.step d).controller.lifecycle = .running := by
    rw [Traced.step, hstate]
    split
    · rw [postDispatch_lifecycle, preDispatch_lifecycle, h.running]
    · rw [preDispatch_lifecycle, h.running]
  cases hresolved : resolvedKey d t.controller with
  | none =>
    have hproducer : (t.step d).producer = t.producer := by
      simp only [Traced.step, hresolved]
    refine ⟨hrunning, fun key record hseen hstatus => ?_, hproducer ▸ hproduced⟩
    rw [hproducer]
    have hbefore : @LawfulStore.seen Store World _ _
        (preDispatch d t.controller).2.idempotency key = some record := by
      rw [Traced.step, hstate] at hseen
      split at hseen
      · rename_i hpre
        refine postDispatch_kept (fun key' result hkey houtcome hok => ?_) hseen
        have hsome := resolvedKey_eq_some.2 ⟨hpre, hkey, ⟨result, houtcome⟩, hok⟩
        rw [hresolved] at hsome
        simp at hsome
      · exact hseen
    exact h.resolved key record (preDispatch_seen hbefore hstatus) hstatus
  | some key =>
    obtain ⟨hpre, hkey, ⟨result, houtcome⟩, hok⟩ := resolvedKey_eq_some.1 hresolved
    obtain ⟨hvalid, body, -, hseen⟩ := postDispatch_resolved hkey houtcome hok
    have hproducer : (t.step d).producer = Function.update t.producer key (some d.command) := by
      simp only [Traced.step, hresolved]
    have hstore : (t.step d).controller = (postDispatch d (preDispatch d t.controller).2).2 := by
      rw [Traced.step, hstate, if_pos hpre]
    refine ⟨hrunning, fun key' record hrecord hstatus => ?_, fun key' source hsource => ?_⟩
    · rw [hstore, hseen, Function.update_apply] at hrecord
      rw [hproducer, Function.update_apply]
      split at hrecord
      · rename_i hsame
        obtain rfl := Option.some.inj hrecord
        exact ⟨d.command, if_pos hsame, rfl⟩
      · rename_i hother
        obtain ⟨source, hsource, hhash⟩ :=
          h.resolved key' record (preDispatch_seen hrecord hstatus) hstatus
        exact ⟨source, (if_neg hother).trans hsource, hhash⟩
    · rw [hproducer, Function.update_apply] at hsource
      split at hsource
      · rename_i hsame
        obtain rfl := Option.some.inj hsource
        exact ⟨by simp, hsame ▸ hkey, hsame ▸ hvalid⟩
      · exact hproduced key' source hsource

/-- **The run lemma.** -/
theorem known_run {store : Store} (hempty : ∀ key, @LawfulStore.seen Store World _ _ store key = none)
    (dispatches : List (Dispatch World)) :
    Known World (dispatches.map (·.command)) (runDispatches store dispatches) := by
  induction dispatches using List.reverseRecOn with
  | nil => exact ⟨rfl, fun key record h => by simp [runDispatches, hempty] at h, by simp [runDispatches]⟩
  | append_singleton dispatches d ih =>
    rw [runDispatches, List.foldl_append, List.map_append]
    exact known_step ih d

end Runs

/-! ## Commands that may share a key -/

/-- No two commands share a key and a payload but not their name. -/
def OneNamePerRequest (commands : List CommandEnvelope) : Prop :=
  ∀ a ∈ commands, ∀ b ∈ commands, ∀ key, a.idempotencyKey = some key →
    b.idempotencyKey = some key → validateKey key = .ok () → a.payload = b.payload →
    a.commandName = b.commandName

/-- Different payloads have different digests. -/
def CollisionFree [Sha256] (commands : List CommandEnvelope) : Prop :=
  ∀ a ∈ commands, ∀ b ∈ commands, digest a.payload = digest b.payload → a.payload = b.payload

theorem hashPayload_injective [Sha256] {a b : Bytes} (h : hashPayload a = hashPayload b) :
    digest a = digest b := by
  have hchars : lowerHex (digest a).toList = lowerHex (digest b).toList := String.ofList_injective h
  have hbytes := fromHexPairs_utf8_lowerHex (digest a).toList
  rw [hchars, fromHexPairs_utf8_lowerHex] at hbytes
  exact (Vector.toList_inj.1 (Option.some.inj hbytes)).symm

section

variable {Store World : Type} [Sha256] [ResultJson] [IdempotencyStore Store World]
  [LawfulStore Store World]

/-- A run whose commands use one name for each request replays only results of the same request. -/
theorem answersSame_of_oneNamePerRequest {store : Store}
    (hempty : ∀ key, @LawfulStore.seen Store World _ _ store key = none)
    {dispatches : List (Dispatch World)} (hfree : CollisionFree (dispatches.map (·.command)))
    (hname : OneNamePerRequest (dispatches.map (·.command))) : AnswersSame store dispatches := by
  rintro earlier d later rfl answer hanswer
  have hknown := known_run hempty earlier
  obtain ⟨key, record, hkey, hseen, hstatus, hhash⟩ := replay_spec hknown.running hanswer
  obtain ⟨source, hsource, hproduced⟩ := hknown.resolved key record hseen hstatus
  obtain ⟨hmem, hsourceKey, hvalid⟩ := hknown.produced key source hsource
  have hmem : source ∈ (earlier ++ d :: later).map (·.command) := by
    rw [List.map_append]
    exact List.mem_append_left _ hmem
  have hd : d.command ∈ (earlier ++ d :: later).map (·.command) := by simp
  have hpayload : source.payload = d.command.payload :=
    hfree source hmem d.command hd (hashPayload_injective (hproduced.symm.trans hhash))
  exact ⟨key, source, hkey, hsource, hsourceKey,
    hname source hmem d.command hd key hsourceKey hkey hvalid hpayload, hpayload⟩

end

/-- The JSON of a result with no events and no message. -/
@[reducible] def plainJson : ResultJson where
  toString result := .ok (if result.accepted then
    "\x7b\"accepted\":true,\"events\":[],\"message\":null\x7d"
    else "\x7b\"accepted\":false,\"events\":[],\"message\":null\x7d")
  fromStr text :=
    .ok ⟨text = "\x7b\"accepted\":true,\"events\":[],\"message\":null\x7d", [], none⟩

/-- A command under the key `request-1` that its handler accepts. -/
def acceptedDispatch (name : String) : Dispatch Unit :=
  ⟨⟨⟨name⟩, some "request-1", [7]⟩, .ok (.acceptedWith []), (), (), (), 1, 2⟩

/-- A command that is sent twice. -/
def retried : List (Dispatch Unit) :=
  [acceptedDispatch "documents.create", acceptedDispatch "documents.create"]

theorem answersSame_retried : ∃ (sha : Sha256) (json : ResultJson),
    sha = Sha256.fips ∧ json = plainJson ∧
    @AnswersSame InMemoryIdempotencyStore Unit sha json _ ⟨∅⟩ retried := by
  refine ⟨Sha256.fips, plainJson, rfl, rfl, ?_⟩
  refine @answersSame_of_oneNamePerRequest _ _ Sha256.fips plainJson _ _ _ (fun _ => rfl) _ ?_ ?_
  · intro a ha b hb _
    simp_all [retried, acceptedDispatch]
  · intro a ha b hb _
    simp_all [retried, acceptedDispatch]

/-- A second command under the key of the first, with its payload. -/
def renamed : List (Dispatch Unit) :=
  [acceptedDispatch "documents.create", acceptedDispatch "documents.delete"]

/-- The second command is answered with the result of the first. -/
theorem not_answersSame_renamed : ∃ (sha : Sha256) (json : ResultJson),
    sha = Sha256.fips ∧ json = plainJson ∧
    @CollisionFree sha (renamed.map (·.command)) ∧
    ¬ @AnswersSame InMemoryIdempotencyStore Unit sha json _ ⟨∅⟩ renamed := by
  refine ⟨Sha256.fips, plainJson, rfl, rfl, ?_, fun h => ?_⟩
  · have hpayload : ∀ c ∈ renamed.map (·.command), c.payload = [7] := by decide
    intro a ha b hb _
    rw [hpayload a ha, hpayload b hb]
  · have hreplay := h [acceptedDispatch "documents.create"] (acceptedDispatch "documents.delete") []
      rfl (.ok (.acceptedWith [])) (by decide +kernel)
    obtain ⟨key, source, hkey, hsource, -, hname, -⟩ := hreplay
    obtain rfl := Option.some.inj hkey
    have hproducer : (@runDispatches InMemoryIdempotencyStore Unit Sha256.fips plainJson _ ⟨∅⟩
        [acceptedDispatch "documents.create"]).producer "request-1" =
          some (acceptedDispatch "documents.create").command := by decide
    rw [hproducer] at hsource
    obtain rfl := Option.some.inj hsource
    exact absurd hname (by decide)

end AppCore.Core
