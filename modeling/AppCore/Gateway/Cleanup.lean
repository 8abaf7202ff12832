import AppCore.Gateway.RouterProof

/-!
# The end of a call

A call that ends removes what is registered under its request id, whoever registered it.

* `undisturbed` — as long as an id is registered again only after every call with it has ended, a
  call leaves the tables only when it is answered or ends itself, and none is told that the
  connection to its worker is lost.
-/

namespace AppCore.Gateway

namespace GatewayProcess

/-- A call that is in both tables. -/
def Registered (g : GatewayProcess) (c : Nat) : Prop :=
  ∃ call : Call, g.calls[c]? = some call ∧ g.sender call.key = some c ∧
    g.pendingMetadata call.key = some call.metadata

/-- What a call is told whose sender was dropped. -/
def lost (call : Call) : CallEnd :=
  .rejected (.rejected call.key.mesh call.key.requestId "worker_connection_lost")

/-- No call was told that the connection is lost. -/
def NoneLost (g : GatewayProcess) : Prop :=
  ∀ (c : Nat) (call : Call), g.calls[c]? = some call → call.ended ≠ some (lost call)

/-- A call leaves the tables in this step only when the step delivers a frame to it or is its own
end. -/
def Undisturbed [Sha256] [GatewayJson] (g : GatewayProcess) (st : GatewayStep) : Prop :=
  ∀ (c : Nat) (g' : GatewayProcess), g.Registered c → g.step st = some g' →
    g'.Registered c ∨ (st = .cancel c ∨ ∃ elapsed, st = .poll c elapsed) ∨
      ∃ (frame : WorkerFrame) (call : Call), st = .frame frame ∧ g'.calls[c]? = some call ∧
        call.channel = .sent g.frames.length frame.response

/-- A request id that is not pending is registered only when every call with it has ended. -/
def FreshId (g : GatewayProcess) (st : GatewayStep) : Prop :=
  ∀ key, st.key = some key → g.sender key = none →
    ∀ (c : Nat) (call : Call), g.calls[c]? = some call → call.key = key → call.ended ≠ none

variable {g g' : GatewayProcess}

variable {c : Nat} {key : PendingKey}

theorem Routed.registered (h : Routed g) (hc : g.sender key = some c) :
    g.Registered c := by
  obtain ⟨call, hcall, hkey, hmetadata, -⟩ := h.sender key c hc
  exact ⟨call, hcall, hkey ▸ hc, hkey ▸ hmetadata⟩

/-! ### The calls after a step -/

theorem getElem?_cleanupPending_of_ne {i : Nat} (h : g.sender key ≠ some i) :
    (g.cleanupPending key).calls[i]? = g.calls[i]? := by
  rw [cleanupPending_calls, getElem?_dropSender]
  simp [h]

theorem Call.put_key (channel : Channel) (call : Call) : (call.put channel).key = call.key := by
  unfold Call.put
  split <;> rfl

theorem Call.put_metadata (channel : Channel) (call : Call) :
    (call.put channel).metadata = call.metadata := by
  unfold Call.put
  split <;> rfl

theorem Call.put_forwarded (channel : Channel) (call : Call) :
    (call.put channel).forwarded = call.forwarded := by
  unfold Call.put
  split <;> rfl

variable {call : Call}

theorem getElem?_endCall_of_ne (hc : g.calls[c]? = some call)
    (hsender : ∀ i, g.sender call.key = some i → i = c) (ended : CallEnd) {i : Nat} (hi : c ≠ i) :
    (g.endCall c ended).calls[i]? = g.calls[i]? := by
  rw [getElem?_endCall hc, getElem?_cleanupPending_of_ne fun h => hi (hsender i h).symm]
  simp [hi]

theorem getElem?_endCall_self (hc : g.calls[c]? = some call) (ended : CallEnd) :
    ∃ call' : Call, (g.endCall c ended).calls[c]? = some call' ∧
      call'.key = call.key ∧ call'.forwarded = call.forwarded ∧ call'.ended = some ended := by
  rw [getElem?_endCall hc, cleanupPending_calls, getElem?_dropSender, hc, Option.map_some,
    Option.map_some]
  refine ⟨_, rfl, ?_, ?_, ?_⟩
  · rw [if_pos rfl]
    split
    · exact Call.put_key .closed call
    · rfl
  · rw [if_pos rfl]
    split
    · exact Call.put_forwarded .closed call
    · rfl
  · rw [if_pos rfl]

/-- What a registration leaves at the number of its call: it is forwarded, or it has ended. -/
theorem forward_cases {tenant : TenantState} (metadata : PendingMetadata)
    (payload : Except String String) (sent : Except String Unit)
    (htenant : (g.tenant key.stateId key.tenantId).getD (.new key.tenantId) = tenant)
    (g₂ : GatewayProcess) (hg₂ : g₂ = g.registerPending tenant key metadata) :
    (∀ i, i < g.calls.length → (g₂.forward key payload sent).calls[i]? = g.calls[i]?) ∧
    (∀ i, g.calls.length < i → (g₂.forward key payload sent).calls[i]? = none) ∧
    (∀ other, other ≠ key → (g₂.forward key payload sent).sender other = g.sender other) ∧
    ∃ call : Call, (g₂.forward key payload sent).calls[g.calls.length]? = some call ∧
      call.key = key ∧ call.ended ≠ some (lost call) ∧
      (call.ended = none → call.channel = .waiting) ∧
      (call.forwarded = true → (g₂.forward key payload sent).sender key = some g.calls.length) := by
  have hcalls : g₂.calls = g.calls ++ [g.newCall key metadata] := by rw [hg₂]; rfl
  have hlength : g₂.calls.length - 1 = g.calls.length := by
    rw [hcalls, List.length_append, List.length_singleton]
    rfl
  have hsender : ∀ other, g₂.sender other =
      if key = other then some g.calls.length else g.sender other := by
    intro other
    rw [hg₂]
    exact sender_registerPending htenant other
  have hlt : ∀ i, i < g.calls.length → g₂.calls[i]? = g.calls[i]? := by
    intro i hi
    rw [hcalls, List.getElem?_append_left hi]
  have hgt : ∀ i, g.calls.length < i → g₂.calls[i]? = none := by
    intro i hi
    refine List.getElem?_eq_none ?_
    rw [hcalls, List.length_append, List.length_singleton]
    exact hi
  have hnew : g₂.calls[g.calls.length]? = some (g.newCall key metadata) := by
    rw [hcalls, List.getElem?_concat_length]
  -- a registration that is taken back has ended, and nothing else has changed
  have hfailed : ∀ reason : String, reason ≠ "worker_connection_lost" →
      let g₃ := (g₂.cleanupPending key).endCall g.calls.length
        (.rejected (.rejected key.mesh key.requestId reason))
      (∀ i, i < g.calls.length → g₃.calls[i]? = g.calls[i]?) ∧
      (∀ i, g.calls.length < i → g₃.calls[i]? = none) ∧
      (∀ other, other ≠ key → g₃.sender other = g.sender other) ∧
      ∃ call : Call, g₃.calls[g.calls.length]? = some call ∧ call.key = key ∧
        call.ended ≠ some (lost call) ∧ (call.ended = none → call.channel = .waiting) ∧
        (call.forwarded = true → g₃.sender key = some g.calls.length) := by
    intro reason hreason g₃
    have hself : g₂.sender key = some g.calls.length := by rw [hsender, if_pos rfl]
    have hclosed : (g₂.cleanupPending key).calls[g.calls.length]? =
        some ((g.newCall key metadata).put .closed) := by
      rw [cleanupPending_calls, getElem?_dropSender, hself, hnew, Option.map_some, if_pos rfl]
    have hkey : ((g.newCall key metadata).put .closed).key = key := Call.put_key _ _
    have hcleaned : ∀ i, g.calls.length ≠ i → g₃.calls[i]? = g₂.calls[i]? := by
      intro i hi
      refine (getElem?_endCall_of_ne hclosed (fun j hj => ?_) _ hi).trans ?_
      · rw [hkey, sender_cleanupPending, if_pos rfl] at hj
        cases hj
      · refine getElem?_cleanupPending_of_ne ?_
        rw [hself]
        exact fun h => hi (Option.some.inj h)
    refine ⟨fun i hi => (hcleaned i (Nat.ne_of_gt hi)).trans (hlt i hi),
      fun i hi => (hcleaned i (Nat.ne_of_lt hi)).trans (hgt i hi), fun other hother => ?_, ?_⟩
    · rw [sender_endCall hclosed, hkey, if_neg (Ne.symm hother), sender_cleanupPending,
        if_neg (Ne.symm hother), hsender, if_neg (Ne.symm hother)]
    · obtain ⟨call, hcall, hcallKey, hforwarded, hended⟩ := getElem?_endCall_self hclosed
        (.rejected (.rejected key.mesh key.requestId reason))
      rw [hkey] at hcallKey
      refine ⟨call, hcall, hcallKey, ?_, fun h => ?_, fun h => ?_⟩
      · rw [hended, lost, hcallKey]
        exact fun h => rejected_reason_ne hreason (Option.some.inj h)
      · rw [hended] at h
        cases h
      · rw [hforwarded, Call.put_forwarded] at h
        cases h
  unfold forward
  rw [hlength]
  cases payload with
  | error error => exact hfailed _ (fun h => by simpa using congrArg (·.toList.head?) h)
  | ok text =>
    cases sent with
    | error error => exact hfailed _ (fun h => by simpa using congrArg (·.toList.head?) h)
    | ok u =>
      refine ⟨fun i hi => ?_, fun i hi => ?_, fun other hother => ?_, ?_⟩
      · change (g₂.calls.modify _ _)[i]? = _
        rw [getElem?_modify, hlt i hi]
        simp [Nat.ne_of_gt hi]
      · change (g₂.calls.modify _ _)[i]? = _
        rw [getElem?_modify, hgt i hi, Option.map_none]
      · change g₂.sender other = _
        rw [hsender, if_neg (Ne.symm hother)]
      · refine ⟨{ g.newCall key metadata with forwarded := true }, ?_, rfl, nofun, fun _ => rfl,
          fun _ => ?_⟩
        · change (g₂.calls.modify _ _)[_]? = _
          rw [getElem?_modify, hnew, Option.map_some, if_pos rfl]
        · change g₂.sender key = _
          rw [hsender, if_pos rfl]

/-- A sender stays registered unless its call gets a response or a call with its key ends. -/
theorem sender_of_effect (h : Routed g) {st : GatewayStep} (heffect : Effect g st g')
    (hc : g.sender key = some c) :
    g'.sender key = some c ∨
      (∃ (c' : Nat) (call' : Call), (st = .cancel c' ∨ ∃ elapsed, st = .poll c' elapsed) ∧
        g.calls[c']? = some call' ∧ call'.key = key ∧ call'.ended = none) ∨
      ∃ (frame : WorkerFrame) (call : Call), st = .frame frame ∧ frame.key = key ∧
        g'.calls[c]? = some call ∧ call.channel = .sent g.frames.length frame.response := by
  cases heffect with
  | quiet _ _ _ hquiet => exact Or.inl ((hquiet.sender key).trans hc)
  | registered _ key' _ g₁ hquiet tenant htenant hfree metadata payload sent =>
    obtain ⟨-, -, hother, -⟩ := forward_cases metadata payload sent htenant _ rfl
    have hne : key ≠ key' := by
      rintro rfl
      rw [hfree] at hc
      cases hc
    refine Or.inl ?_
    rw [hother key hne, hquiet.sender]
    exact hc
  | ended _ c' hst call hcall hended ended _ _ =>
    by_cases heq : call.key = key
    · exact Or.inr (Or.inl ⟨c', call, hst, hcall, heq, hended⟩)
    · refine Or.inl ?_
      rw [sender_endCall hcall, if_neg heq]
      exact hc
  | orphaned frame => exact Or.inl hc
  | forgotten frame _ => exact Or.inl hc
  | delivered frame c' hc' _ =>
    by_cases heq : frame.key = key
    · subst heq
      rw [hc, Option.some.injEq] at hc'
      subst hc'
      obtain ⟨call, hcall, -, -, hwaiting, hended⟩ := h.sender frame.key c hc
      refine Or.inr (Or.inr ⟨frame, call.put (.sent g.frames.length frame.response), rfl, rfl,
        ?_, ?_⟩)
      · change ((g.send c frame.response).removePending frame.key).calls[c]? = _
        rw [removePending_calls]
        change (g.calls.modify _ _)[c]? = _
        rw [getElem?_modify, hcall, Option.map_some, if_pos rfl]
      · simp [Call.put, hwaiting, hended]
    · refine Or.inl ?_
      change ((g.send c' frame.response).removePending frame.key).sender key = some c
      rw [sender_removePending, if_neg heq]
      exact hc
  | renewed stateId hnone =>
    obtain ⟨call, hcall, hkey, -, -, hended⟩ := h.sender key c hc
    have hne : stateId ≠ key.stateId := fun heq => hnone c call hcall hended (by rw [hkey, heq])
    refine Or.inl ?_
    rw [sender_renew, if_neg hne]
    exact hc

/-! ### When ids are fresh -/

/-- Calls that have not ended have different keys, and their channels are open. -/
structure Apart (g : GatewayProcess) : Prop where
  routed : Routed g
  distinct : ∀ (c c' : Nat) (call call' : Call), g.calls[c]? = some call →
    g.calls[c']? = some call' → call.ended = none → call'.ended = none →
    call.key = call'.key → c = c'
  opened : ∀ (c : Nat) (call : Call), g.calls[c]? = some call → call.ended = none →
    call.channel ≠ .closed
  noneLost : NoneLost g

theorem Apart.of_calls (h : Apart g) (hrouted : Routed g')
    (hcalls : ∀ (c : Nat) (call' : Call), g'.calls[c]? = some call' →
      call'.ended ≠ some (lost call') ∧ (call'.ended = none → call'.channel ≠ .closed ∧
        ∃ call, g.calls[c]? = some call ∧ call.ended = none ∧ call'.key = call.key)) : Apart g' where
  routed := hrouted
  distinct c c' call call' hc hc' hended hended' hkey := by
    obtain ⟨-, before, hbefore, hopen, hkey₁⟩ := (hcalls c call hc).2 hended
    obtain ⟨-, before', hbefore', hopen', hkey₂⟩ := (hcalls c' call' hc').2 hended'
    exact h.distinct c c' before before' hbefore hbefore' hopen hopen'
      (hkey₁.symm.trans (hkey.trans hkey₂))
  opened c call hc hended := ((hcalls c call hc).2 hended).1
  noneLost c call hc := (hcalls c call hc).1

theorem Apart.same (h : Apart g) (hc : g.calls[c]? = some call) :
    call.ended ≠ some (lost call) ∧ (call.ended = none → call.channel ≠ .closed ∧
      ∃ before, g.calls[c]? = some before ∧ before.ended = none ∧ call.key = before.key) :=
  ⟨h.noneLost c call hc, fun hended => ⟨h.opened c call hc hended, call, hc, hended, rfl⟩⟩

theorem apart_ended (h : Apart g) (hcall : g.calls[c]? = some call) (hended : call.ended = none)
    {ended : CallEnd} (hrouted : Routed (g.endCall c ended)) (hlost : ended ≠ lost call) :
    Apart (g.endCall c ended) := by
  -- the call that is registered under the key of the one that ends is that call
  have hown : ∀ i, g.sender call.key = some i → i = c := by
    intro i hi
    obtain ⟨call', hcall', hkey, -, -, hended'⟩ := h.routed.sender call.key i hi
    exact h.distinct i c call' call hcall' hcall hended' hended hkey
  refine h.of_calls hrouted fun i call' hi => ?_
  by_cases heq : c = i
  · subst heq
    obtain ⟨found, hfound, hkey, -, hfoundEnded⟩ := getElem?_endCall_self hcall ended
    rw [hfound] at hi
    cases hi
    refine ⟨?_, fun hnone => ?_⟩
    · rw [hfoundEnded, lost, hkey]
      exact fun h => hlost (Option.some.inj h)
    · rw [hfoundEnded] at hnone
      cases hnone
  · rw [getElem?_endCall_of_ne hcall hown ended heq] at hi
    exact h.same hi

theorem apart_registered (h : Apart g) {g₁ : GatewayProcess} (hquiet : Quiet g g₁)
    {tenant : TenantState}
    (htenant : (g₁.tenant key.stateId key.tenantId).getD (.new key.tenantId) = tenant)
    {metadata : PendingMetadata} {payload : Except String String} {sent : Except String Unit}
    (hfresh : ∀ (c : Nat) (call : Call), g.calls[c]? = some call → call.key = key →
      call.ended ≠ none)
    (hrouted : Routed ((g₁.registerPending tenant key metadata).forward key payload sent)) :
    Apart ((g₁.registerPending tenant key metadata).forward key payload sent) := by
  obtain ⟨hlt, hgt, -, new, hnew, hkey, hnotLost, hwaiting, -⟩ :=
    forward_cases metadata payload sent htenant _ rfl
  rw [hquiet.calls] at hlt hgt hnew
  -- a call is an old one or the new one
  have hcases : ∀ (c : Nat) (call : Call),
      ((g₁.registerPending tenant key metadata).forward key payload sent).calls[c]? = some call →
      g.calls[c]? = some call ∨ c = g.calls.length ∧ call = new := by
    intro c call hc
    rcases Nat.lt_trichotomy c g.calls.length with hc' | hc' | hc'
    · rw [hlt c hc'] at hc
      exact Or.inl hc
    · subst hc'
      rw [hnew, Option.some.injEq] at hc
      exact Or.inr ⟨rfl, hc.symm⟩
    · rw [hgt c hc'] at hc
      cases hc
  refine ⟨hrouted, ?_, fun c call hc hended => ?_, fun c call hc => ?_⟩
  · intro c c' call call' hc hc' hended hended' hsame
    rcases hcases c call hc with hold | ⟨rfl, rfl⟩
    · rcases hcases c' call' hc' with hold' | ⟨rfl, rfl⟩
      · exact h.distinct c c' call call' hold hold' hended hended' hsame
      · exact absurd hended (hfresh c call hold (hsame.trans hkey))
    · rcases hcases c' call' hc' with hold' | ⟨rfl, rfl⟩
      · exact absurd hended' (hfresh c' call' hold' (hsame.symm.trans hkey))
      · rfl
  · rcases hcases c call hc with hold | ⟨rfl, rfl⟩
    · exact h.opened c call hold hended
    · rw [hwaiting hended]
      exact nofun
  · rcases hcases c call hc with hold | ⟨rfl, rfl⟩
    · exact h.noneLost c call hold
    · exact hnotLost

theorem apart_step (h : Apart g) {st : GatewayStep} (hfresh : g.FreshId st)
    (heffect : Effect g st g') : Apart g' := by
  have hrouted := routed_step h.routed heffect
  cases heffect with
  | quiet _ _ _ hquiet =>
    refine h.of_calls hrouted fun c call hc => ?_
    rw [hquiet.calls] at hc
    exact h.same hc
  | registered _ key hkey g₁ hquiet tenant htenant hfree metadata payload sent =>
    exact apart_registered h hquiet htenant (hfresh key hkey hfree) hrouted
  | ended _ c _ call hcall hended ended _ hlost =>
    exact apart_ended h hcall hended hrouted fun heq =>
      h.opened c call hcall hended (hlost heq)
  | orphaned frame => exact h.of_calls hrouted fun c call hc => h.same hc
  | forgotten frame _ => exact h.of_calls hrouted fun c call hc => h.same hc
  | delivered frame c' hc' _ =>
    refine h.of_calls hrouted fun c call hc => ?_
    change ((g.send c' frame.response).removePending frame.key).calls[c]? = some call at hc
    rw [removePending_calls] at hc
    change (g.calls.modify _ _)[c]? = some call at hc
    rw [getElem?_modify, Option.map_eq_some_iff] at hc
    obtain ⟨before, hbefore, rfl⟩ := hc
    split
    · obtain ⟨hlost, hopen⟩ := h.same hbefore
      unfold Call.put
      split
      · exact ⟨hlost, fun hended => ⟨nofun, (hopen hended).2⟩⟩
      · exact ⟨hlost, hopen⟩
    · exact h.same hbefore
  | renewed stateId hnone => exact h.of_calls hrouted fun c call hc => h.same hc

theorem apart_new : Apart new := by
  have hnone : ∀ (c : Nat) (call : Call), new.calls[c]? ≠ some call := fun _ _ h => by cases h
  exact ⟨routed_new, fun c _ call _ hc => absurd hc (hnone c call),
    fun c call hc => absurd hc (hnone c call), fun c call hc => absurd hc (hnone c call)⟩

theorem undisturbed_of_apart [Sha256] [GatewayJson] (h : Apart g) (st : GatewayStep) :
    g.Undisturbed st := by
  intro c g' hc hstep
  have heffect := effect_of_step hstep
  obtain ⟨call, hcall, hsender, -⟩ := hc
  rcases sender_of_effect h.routed heffect hsender with hstays | hends | hframe
  · exact Or.inl ((routed_step h.routed heffect).registered hstays)
  · obtain ⟨c', call', hst, hcall', hkey, hended⟩ := hends
    obtain ⟨found, hfound, hfoundKey, -, -, hfoundEnded⟩ := h.routed.sender call.key c hsender
    have heq := h.distinct c' c call' found hcall' hfound hended hfoundEnded
      (hkey.trans hfoundKey.symm)
    subst heq
    exact Or.inr (Or.inl hst)
  · obtain ⟨frame, answered, hst, -, hanswered, hchannel⟩ := hframe
    exact Or.inr (Or.inr ⟨frame, answered, hst, hanswered, hchannel⟩)

end GatewayProcess

open GatewayProcess

/-- **The end of a call leaves the others alone**, in every run in which a request id is registered
again only after every call with it has ended: a call leaves the tables with the answer that is
dispatched to it or at its own end, and none is told that its connection is lost. -/
theorem undisturbed [Sha256] [GatewayJson] (steps : List GatewayStep)
    (hfresh : EachStep GatewayProcess.step FreshId new steps) :
    EachStep GatewayProcess.step Undisturbed new steps ∧
      Throughout GatewayProcess.step NoneLost new steps := by
  have hapart : Throughout GatewayProcess.step GatewayProcess.Apart new steps :=
    throughout_of_step apart_new
      (fun _ _ _ h hfresh hstep => apart_step h hfresh (effect_of_step hstep)) hfresh
  exact ⟨hapart.eachStep hfresh fun g st h _ => undisturbed_of_apart h st,
    hapart.imp fun g h => h.noneLost⟩

/-- A request is answered and the call returns before the id is used again. -/
theorem undisturbed_sample :
    @EachStep _ _ (@GatewayProcess.step Sha256.fips sampleJson)
        (@Undisturbed Sha256.fips sampleJson) new (sampleSteps ++ [.poll 0 false]) ∧
      @Throughout _ _ (@GatewayProcess.step Sha256.fips sampleJson) NoneLost new
        (sampleSteps ++ [.poll 0 false]) := by
  refine @undisturbed Sha256.fips sampleJson _ ?_
  intro before st after g heq hrun key hkey _ c call hc
  -- the one request is made when there is no call
  match before, heq with
  | [], heq =>
    cases heq
    cases hkey
  | [_], heq =>
    cases heq
    have hnone : (@runFrom _ _ (@GatewayProcess.step Sha256.fips sampleJson) new
        [.connectWorker 0 sampleWorker.key ⟨"cluster-a"⟩ [] 1000]).map (fun g => g.calls) =
        some [] := by decide
    rw [hrun, Option.map_some, Option.some.injEq] at hnone
    rw [hnone] at hc
    cases hc
  | [_, _], heq =>
    cases heq
    cases hkey
  | [_, _, _], heq =>
    cases heq
    cases hkey
  | _ :: _ :: _ :: _ :: before, heq => simp [sampleSteps] at heq

/-- A call is answered, and before it is resumed another one takes its id. The first removes the
registration of the second, whose answer is turned away. -/
theorem answer_lost :
    ¬ ∀ (_ : Sha256) (_ : GatewayJson) (steps : List GatewayStep),
      EachStep GatewayProcess.step Undisturbed new steps ∧
        Throughout GatewayProcess.step NoneLost new steps := by
  intro h
  have hlost := (h Sha256.fips sampleJson (sampleSteps ++
    [.meshRequest 0 sampleRequest (some sampleWorker) (.ok ()), .poll 0 false,
      .frame ⟨0, ⟨"tenant-a"⟩, 1, .mesh sampleAnswer⟩, .poll 1 false])).2
  have hrun : (@runFrom _ _ (@GatewayProcess.step Sha256.fips sampleJson) new (sampleSteps ++
      [.meshRequest 0 sampleRequest (some sampleWorker) (.ok ()), .poll 0 false,
        .frame ⟨0, ⟨"tenant-a"⟩, 1, .mesh sampleAnswer⟩, .poll 1 false])).map
        (fun g => g.calls[1]?.map fun call => decide (call.ended = some (lost call))) =
      some (some true) := by decide
  obtain ⟨g, hg, hcall⟩ := Option.map_eq_some_iff.1 hrun
  obtain ⟨call, hcall, hended⟩ := Option.map_eq_some_iff.1 hcall
  exact hlost.final hg 1 call hcall (of_decide_eq_true hended)

end AppCore.Gateway
