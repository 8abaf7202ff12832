import AppCore.Gateway.Router

/-!
# What the router delivers

A response reaches only the call it belongs to (`responses_belong`). The sender of a call and its
metadata are registered together, removed together and never replaced (`Routed`), so the metadata
that admit a frame are those of the call that gets it. What a step can do to the two tables and the
calls is said once (`Effect`).
-/

namespace AppCore.Gateway

namespace GatewayProcess

variable {g g' : GatewayProcess}

/-! ## The table of senders -/

theorem tenant_setTenant (stateId : Nat) (tenantId : TenantId) (tenant : TenantState) (s : Nat)
    (t : TenantId) :
    (g.setTenant stateId tenantId tenant).tenant s t =
      if stateId = s ∧ tenantId = t then some tenant else g.tenant s t := by
  unfold GatewayProcess.tenant setTenant
  dsimp only
  by_cases hs : stateId = s
  · subst hs
    rw [Function.update_self, lookup_insert]
    have hkey : tenantId.asStr = t.asStr ↔ tenantId = t := by
      cases tenantId
      cases t
      simp
    simp [hkey]
  · rw [Function.update_of_ne (Ne.symm hs)]
    simp [hs]

variable {stateId : Nat} {tenantId : TenantId}

theorem sender_setTenant {tenant : TenantState} (h : ∀ mesh, tenant.pending mesh =
      ((g.tenant stateId tenantId).getD (.new tenantId)).pending mesh) (key : PendingKey) :
    (g.setTenant stateId tenantId tenant).sender key = g.sender key := by
  unfold sender
  rw [tenant_setTenant]
  by_cases hkey : stateId = key.stateId ∧ tenantId = key.tenantId
  · rw [if_pos hkey]
    obtain ⟨rfl, rfl⟩ := hkey
    rw [Option.bind_some, h]
    cases g.tenant key.stateId key.tenantId with
    | none => cases hmesh : key.mesh <;> simp [TenantState.pending, TenantState.new]
    | some found => rfl
  · rw [if_neg hkey]

/-- Only the requests of one kind of one tenant are replaced. -/
theorem sender_setPending {key : PendingKey} {tenant : TenantState}
    (htenant : (g.tenant key.stateId key.tenantId).getD (.new key.tenantId) = tenant)
    (calls : Std.ExtTreeMap String Nat compare)
    (hcalls : ∀ id, id ≠ key.requestId → calls[id]? = (tenant.pending key.mesh)[id]?)
    (other : PendingKey) :
    (g.setTenant key.stateId key.tenantId (tenant.setPending key.mesh calls)).sender other =
      if key = other then calls[key.requestId]? else g.sender other := by
  have hsender : key.stateId = other.stateId → key.tenantId = other.tenantId →
      g.sender other = (tenant.pending other.mesh)[other.requestId]? := by
    intro hs ht
    rw [← htenant, hs, ht, sender]
    cases g.tenant other.stateId other.tenantId with
    | none => cases hmesh : other.mesh <;> simp [TenantState.pending, TenantState.new]
    | some found => rfl
  rw [sender, tenant_setTenant]
  by_cases hkey : key.stateId = other.stateId ∧ key.tenantId = other.tenantId
  · rw [if_pos hkey, Option.bind_some, TenantState.pending_setPending]
    by_cases hsame : key = other
    · subst hsame
      rw [if_pos rfl, if_pos rfl]
    · rw [if_neg hsame, hsender hkey.1 hkey.2]
      by_cases hmesh : key.mesh = other.mesh
      · have hid : other.requestId ≠ key.requestId := by
          intro hid
          refine hsame ?_
          cases key
          cases other
          simp_all
        rw [if_pos hmesh, hcalls _ hid, hmesh]
      · rw [if_neg hmesh]
  · have hne : key ≠ other := by
      rintro rfl
      exact hkey ⟨rfl, rfl⟩
    rw [if_neg hkey, if_neg hne]
    rfl

theorem sender_removePending (key other : PendingKey) :
    (g.removePending key).sender other = if key = other then none else g.sender other := by
  unfold removePending
  cases htenant : g.tenant key.stateId key.tenantId with
  | none =>
    by_cases h : key = other
    · subst h
      simp [sender, htenant]
    · simp [h]
  | some tenant =>
    dsimp only
    rw [sender_setPending (by rw [htenant, Option.getD_some])]
    · rw [lookup_erase, if_pos rfl]
    · intro id hid
      rw [lookup_erase, if_neg (Ne.symm hid)]

@[simp] theorem removePending_pendingMetadata (key : PendingKey) :
    (g.removePending key).pendingMetadata = g.pendingMetadata := by
  unfold removePending
  split <;> rfl

@[simp] theorem removePending_calls (key : PendingKey) : (g.removePending key).calls = g.calls := by
  unfold removePending
  split <;> rfl

@[simp] theorem removePending_frames (key : PendingKey) :
    (g.removePending key).frames = g.frames := by
  unfold removePending
  split <;> rfl

@[simp] theorem sender_dropSender (c : Option Nat) (key : PendingKey) :
    (g.dropSender c).sender key = g.sender key := by
  cases c <;> rfl

@[simp] theorem dropSender_pendingMetadata (c : Option Nat) :
    (g.dropSender c).pendingMetadata = g.pendingMetadata := by
  cases c <;> rfl

@[simp] theorem dropSender_frames (c : Option Nat) : (g.dropSender c).frames = g.frames := by
  cases c <;> rfl

theorem sender_cleanupPending (key other : PendingKey) :
    (g.cleanupPending key).sender other = if key = other then none else g.sender other := by
  have h : (g.cleanupPending key).sender other =
      ((g.dropSender (g.sender key)).removePending key).sender other := rfl
  rw [h, sender_removePending, sender_dropSender]

theorem cleanupPending_pendingMetadata (key : PendingKey) :
    (g.cleanupPending key).pendingMetadata = Function.update g.pendingMetadata key none := by
  simp [cleanupPending, removePendingMetadata]

theorem cleanupPending_calls (key : PendingKey) :
    (g.cleanupPending key).calls = (g.dropSender (g.sender key)).calls := by
  simp [cleanupPending, removePendingMetadata]

@[simp] theorem cleanupPending_frames (key : PendingKey) :
    (g.cleanupPending key).frames = g.frames := by
  simp [cleanupPending, removePendingMetadata]

/-- A response on the channel of a call is what frame `f` carried, and `f` is a frame for this call:
it came after the call had registered, to its state and tenant, over the connection it registered
with, and it has the id and the kind of the call and a body within its limit. -/
structure Belongs (frames : List WorkerFrame) (call : Call) (f : Nat) (response : WorkerResponse) :
    Prop where
  frame : ∃ frame, frames[f]? = some frame ∧ frame.response = response ∧
    frame.stateId = call.key.stateId ∧ frame.tenantId = call.key.tenantId ∧
    frame.generation = call.metadata.workerGeneration
  later : call.registered ≤ f
  requestId : response.requestId = call.key.requestId
  kind : response.isMesh = call.key.mesh
  limit : ∀ m, response = .mesh m →
    ∃ limit, call.metadata.responseLimit = some limit ∧ m.body.length ≤ limit

/-- A sender that is registered is the one of a call that waits, next to the metadata of the same
call; what is on a channel belongs there; and a frame is on one channel at most. -/
structure Routed (g : GatewayProcess) : Prop where
  sender : ∀ key (c : Nat), g.sender key = some c → ∃ call : Call, g.calls[c]? = some call ∧ call.key = key ∧
    g.pendingMetadata key = some call.metadata ∧ call.channel = .waiting ∧ call.ended = none
  counted : ∀ (c : Nat) (call : Call), g.calls[c]? = some call → call.registered ≤ g.frames.length
  belongs : ∀ (c : Nat) (call : Call) f response, g.calls[c]? = some call → call.channel = .sent f response →
    Belongs g.frames call f response
  once : ∀ (c c' : Nat) (call call' : Call) f response response', g.calls[c]? = some call →
    g.calls[c']? = some call' → call.channel = .sent f response →
    call'.channel = .sent f response' → c = c'
  answered : ∀ (c : Nat) (call : Call) response, g.calls[c]? = some call →
    call.ended = some (.answered response) → ∃ f, call.channel = .sent f response

variable {call : Call}

theorem Belongs.append {frames : List WorkerFrame} {f : Nat} {response : WorkerResponse}
    (h : Belongs frames call f response) (more : List WorkerFrame) :
    Belongs (frames ++ more) call f response := by
  obtain ⟨frame, hf, hframe⟩ := h.frame
  refine ⟨⟨frame, ?_, hframe⟩, h.later, h.requestId, h.kind, h.limit⟩
  rw [List.getElem?_append_left (List.getElem?_eq_some_iff.1 hf).1, hf]

/-! ## Calls that stay as they are -/

theorem getElem?_modify (calls : List Call) (i c : Nat) (f : Call → Call) :
    (calls.modify i f)[c]? = calls[c]?.map fun call => if i = c then f call else call := by
  rw [List.getElem?_modify]
  rfl

/-- A call after a step that puts no response on its channel. -/
structure SameCall (call call' : Call) : Prop where
  key : call'.key = call.key
  metadata : call'.metadata = call.metadata
  registered : call'.registered = call.registered
  channel : ∀ f response, call'.channel = .sent f response → call.channel = .sent f response
  answered : ∀ response, call'.ended = some (.answered response) →
    ∃ f, call'.channel = .sent f response

theorem Belongs.of_sameCall {frames : List WorkerFrame} {call call' : Call} {f : Nat}
    {response : WorkerResponse} (h : Belongs frames call f response) (hsame : SameCall call call') :
    Belongs frames call' f response := by
  obtain ⟨hframe, hlater, hid, hkind, hlimit⟩ := h
  rw [← hsame.key] at hframe hid hkind
  rw [← hsame.metadata] at hframe hlimit
  rw [← hsame.registered] at hlater
  exact ⟨hframe, hlater, hid, hkind, hlimit⟩

/-- What is left to show when no channel gets a response. -/
theorem Routed.of_sameCalls (h : Routed g) (more : List WorkerFrame)
    (hframes : g'.frames = g.frames ++ more)
    (hcalls : ∀ (c : Nat) (call' : Call), g'.calls[c]? = some call' →
      ∃ call, g.calls[c]? = some call ∧ SameCall call call')
    (hsender : ∀ key (c : Nat), g'.sender key = some c → ∃ call : Call, g'.calls[c]? = some call ∧
      call.key = key ∧ g'.pendingMetadata key = some call.metadata ∧ call.channel = .waiting ∧
      call.ended = none) : Routed g' where
  sender := hsender
  counted c call' hc := by
    obtain ⟨call, hcall, hsame⟩ := hcalls c call' hc
    have hle := h.counted c call hcall
    rw [hsame.registered, hframes, List.length_append]
    omega
  belongs c call' f response hc hchannel := by
    obtain ⟨call, hcall, hsame⟩ := hcalls c call' hc
    rw [hframes]
    exact ((h.belongs c call f response hcall (hsame.channel f response hchannel)).append
      more).of_sameCall hsame
  once c c' call call' f response response' hc hc' hchannel hchannel' := by
    obtain ⟨before, hbefore, hsame⟩ := hcalls c call hc
    obtain ⟨before', hbefore', hsame'⟩ := hcalls c' call' hc'
    exact h.once c c' before before' f response response' hbefore hbefore'
      (hsame.channel f response hchannel) (hsame'.channel f response' hchannel')
  answered c call' response hc hended := by
    obtain ⟨call, hcall, hsame⟩ := hcalls c call' hc
    exact hsame.answered response hended

variable {c : Nat}

theorem Routed.sameCall (h : Routed g) (hc : g.calls[c]? = some call) :
    SameCall call call :=
  ⟨rfl, rfl, rfl, fun _ _ h => h, fun response => h.answered c call response hc⟩

theorem Routed.of_same (h : Routed g) (hsender : ∀ key, g'.sender key = g.sender key)
    (hmetadata : g'.pendingMetadata = g.pendingMetadata) (hcalls : g'.calls = g.calls)
    (hframes : g'.frames = g.frames) : Routed g' := by
  refine h.of_sameCalls [] (by rw [hframes, List.append_nil]) ?_ ?_
  · intro c call hc
    rw [hcalls] at hc
    exact ⟨call, hc, h.sameCall hc⟩
  · intro key c hc
    rw [hsender] at hc
    rw [hcalls, hmetadata]
    exact h.sender key c hc

theorem Call.sameCall_put (h : SameCall call call) :
    SameCall call (call.put .closed) := by
  unfold Call.put
  split
  · refine ⟨rfl, rfl, rfl, fun _ _ heq => (by cases heq), fun response hended => ?_⟩
    rename_i hopen
    rw [hopen.2] at hended
    cases hended
  · exact h

theorem getElem?_dropSender (o : Option Nat) (c : Nat) :
    (g.dropSender o).calls[c]? =
      g.calls[c]?.map fun call => if o = some c then call.put .closed else call := by
  cases o with
  | none => simp [dropSender]
  | some i =>
    rw [dropSender, getElem?_modify]
    simp

/-! ## The parts of a step -/

theorem routed_cleanupPending (h : Routed g) (key : PendingKey) : Routed (g.cleanupPending key) := by
  have hlookup : ∀ c : Nat, (g.cleanupPending key).calls[c]? =
      g.calls[c]?.map fun call => if g.sender key = some c then call.put .closed else call := by
    intro c
    rw [cleanupPending_calls, getElem?_dropSender]
  refine h.of_sameCalls [] (by rw [cleanupPending_frames, List.append_nil]) ?_ ?_
  · intro c call' hc
    rw [hlookup, Option.map_eq_some_iff] at hc
    obtain ⟨call, hcall, rfl⟩ := hc
    refine ⟨call, hcall, ?_⟩
    split
    · exact Call.sameCall_put (h.sameCall hcall)
    · exact h.sameCall hcall
  · intro other c hc
    rw [sender_cleanupPending] at hc
    by_cases heq : key = other
    · rw [if_pos heq] at hc
      cases hc
    · rw [if_neg heq] at hc
      obtain ⟨call, hcall, hkey, hmetadata, hwaiting⟩ := h.sender other c hc
      -- the call under the key that goes is another one
      have hother : g.sender key ≠ some c := by
        intro hsender
        obtain ⟨_, hcall', hkey', -⟩ := h.sender key c hsender
        rw [hcall] at hcall'
        cases hcall'
        exact heq (hkey'.symm.trans hkey)
      refine ⟨call, ?_, hkey, ?_, hwaiting⟩
      · rw [hlookup, hcall, Option.map_some, if_neg hother]
      · rw [cleanupPending_pendingMetadata, Function.update_of_ne (Ne.symm heq)]
        exact hmetadata

theorem sender_endCall (hc : g.calls[c]? = some call) (ended : CallEnd) (other : PendingKey) :
    (g.endCall c ended).sender other = if call.key = other then none else g.sender other := by
  unfold endCall
  rw [hc]
  exact sender_cleanupPending call.key other

theorem getElem?_endCall (hc : g.calls[c]? = some call) (ended : CallEnd) (i : Nat) :
    (g.endCall c ended).calls[i]? = ((g.cleanupPending call.key).calls[i]?).map
      fun call => if c = i then { call with ended := some ended } else call := by
  unfold endCall
  rw [hc]
  exact getElem?_modify _ c i _

@[simp] theorem endCall_frames (c : Nat) (ended : CallEnd) :
    (g.endCall c ended).frames = g.frames := by
  unfold endCall
  split
  · rfl
  · exact cleanupPending_frames _

theorem endCall_pendingMetadata (hc : g.calls[c]? = some call) (ended : CallEnd) :
    (g.endCall c ended).pendingMetadata = Function.update g.pendingMetadata call.key none := by
  unfold endCall
  rw [hc]
  exact cleanupPending_pendingMetadata call.key

/-- A call that ends with an answer has it on its channel. -/
theorem routed_endCall (h : Routed g) {ended : CallEnd}
    (hanswer : ∀ call response, g.calls[c]? = some call → ended = .answered response →
      ∃ f, call.channel = .sent f response) : Routed (g.endCall c ended) := by
  cases hc : g.calls[c]? with
  | none =>
    unfold endCall
    rw [hc]
    exact h
  | some call =>
    have hclean := routed_cleanupPending h call.key
    refine hclean.of_sameCalls [] ?_ ?_ ?_
    · rw [endCall_frames, cleanupPending_frames, List.append_nil]
    · intro i call' hi
      rw [getElem?_endCall hc, Option.map_eq_some_iff] at hi
      obtain ⟨before, hbefore, rfl⟩ := hi
      refine ⟨before, hbefore, ?_⟩
      split
      next heq =>
        subst heq
        refine ⟨rfl, rfl, rfl, fun _ _ h => h, fun response hended => ?_⟩
        cases hended
        obtain ⟨f, hf⟩ := hanswer call response hc rfl
        refine ⟨f, ?_⟩
        rw [cleanupPending_calls, getElem?_dropSender, hc, Option.map_some,
          Option.some.injEq] at hbefore
        rw [← hbefore]
        have hput : call.put .closed = call := by simp [Call.put, hf]
        change (if _ then _ else _ : Call).channel = _
        rw [hput, ite_self]
        exact hf
      next => exact hclean.sameCall hbefore
    · intro other i hi
      rw [sender_endCall hc] at hi
      by_cases heq : call.key = other
      · rw [if_pos heq] at hi
        cases hi
      · have hsender : (g.cleanupPending call.key).sender other = some i := by
          rw [sender_cleanupPending]
          exact hi
        obtain ⟨found, hfound, hkey, hmetadata, hwaiting⟩ := hclean.sender other i hsender
        have hne : c ≠ i := by
          rintro rfl
          obtain ⟨_, hcall, hkey', -⟩ := h.sender other c (by rwa [if_neg heq] at hi)
          rw [hc] at hcall
          cases hcall
          exact heq hkey'
        refine ⟨found, ?_, hkey, ?_, hwaiting⟩
        · rw [getElem?_endCall hc, hfound, Option.map_some, if_neg hne]
        · rw [endCall_pendingMetadata hc, ← cleanupPending_pendingMetadata]
          exact hmetadata

/-- The call that a registration makes. -/
def newCall (g : GatewayProcess) (key : PendingKey) (metadata : PendingMetadata) : Call :=
  { key, metadata, registered := g.frames.length, forwarded := false, channel := .waiting,
    ended := none }

section

variable {tenant : TenantState} {key : PendingKey} {metadata : PendingMetadata}

theorem sender_registerPending
    (htenant : (g.tenant key.stateId key.tenantId).getD (.new key.tenantId) = tenant)
    (other : PendingKey) :
    (g.registerPending tenant key metadata).sender other =
      if key = other then some g.calls.length else g.sender other := by
  have h : (g.registerPending tenant key metadata).sender other =
      (g.setTenant key.stateId key.tenantId (tenant.setPending key.mesh
        ((tenant.pending key.mesh).insert key.requestId g.calls.length))).sender other := rfl
  rw [h, sender_setPending htenant]
  · rw [lookup_insert, if_pos rfl]
  · intro id hid
    rw [lookup_insert, if_neg (Ne.symm hid)]

theorem registerPending_calls :
    (g.registerPending tenant key metadata).calls = g.calls ++ [g.newCall key metadata] := rfl

theorem routed_registerPending (h : Routed g)
    (htenant : (g.tenant key.stateId key.tenantId).getD (.new key.tenantId) = tenant) :
    Routed (g.registerPending tenant key metadata) := by
  have hold : ∀ (c : Nat) (call : Call), g.calls[c]? = some call →
      (g.registerPending tenant key metadata).calls[c]? = some call := by
    intro c call hc
    rw [registerPending_calls, List.getElem?_append_left (List.getElem?_eq_some_iff.1 hc).1, hc]
  -- a call is the new one or an old one
  have hcases : ∀ (c : Nat) (call : Call),
      (g.registerPending tenant key metadata).calls[c]? = some call →
      g.calls[c]? = some call ∨ call = g.newCall key metadata := by
    intro c call hc
    rw [registerPending_calls] at hc
    by_cases hlt : c < g.calls.length
    · rw [List.getElem?_append_left hlt] at hc
      exact Or.inl hc
    · rw [List.getElem?_append_right (Nat.le_of_not_lt hlt)] at hc
      exact Or.inr (List.mem_singleton.1 (List.mem_of_getElem? hc))
  refine ⟨fun other c hc => ?_, fun c call hc => ?_, fun c call f response hc hchannel => ?_,
    fun c c' call call' f response response' hc hc' hchannel hchannel' => ?_,
    fun c call response hc hended => ?_⟩
  · rw [sender_registerPending htenant] at hc
    change ∃ call : Call, _ ∧ _ ∧ Function.update g.pendingMetadata key (some metadata) other = _ ∧ _
    by_cases heq : key = other
    · subst heq
      rw [if_pos rfl, Option.some.injEq] at hc
      subst hc
      refine ⟨g.newCall key metadata, ?_, rfl, Function.update_self .., rfl, rfl⟩
      rw [registerPending_calls, List.getElem?_concat_length]
    · rw [if_neg heq] at hc
      obtain ⟨call, hcall, hkey, hmetadata, hwaiting⟩ := h.sender other c hc
      refine ⟨call, hold c call hcall, hkey, ?_, hwaiting⟩
      rw [Function.update_of_ne (Ne.symm heq)]
      exact hmetadata
  · rcases hcases c call hc with hc | rfl
    · exact h.counted c call hc
    · exact Nat.le_refl _
  · rcases hcases c call hc with hc | rfl
    · exact h.belongs c call f response hc hchannel
    · cases hchannel
  · rcases hcases c call hc with hc | rfl
    · rcases hcases c' call' hc' with hc' | rfl
      · exact h.once c c' call call' f response response' hc hc' hchannel hchannel'
      · cases hchannel'
    · cases hchannel
  · rcases hcases c call hc with hc | rfl
    · exact h.answered c call response hc hended
    · cases hended

end

theorem routed_forward (h : Routed g) (key : PendingKey) (payload : Except String String)
    (sent : Except String Unit) : Routed (g.forward key payload sent) := by
  have hfailed : ∀ reason : WorkerResponse, Routed
      ((g.cleanupPending key).endCall (g.calls.length - 1) (.rejected reason)) :=
    fun reason => routed_endCall (routed_cleanupPending h key) (fun _ _ _ h => by cases h)
  unfold forward
  cases payload with
  | error error => exact hfailed _
  | ok text =>
    cases sent with
    | error error => exact hfailed _
    | ok u =>
      refine h.of_sameCalls [] (List.append_nil _).symm ?_ ?_
      · intro c call' hc
        rw [getElem?_modify, Option.map_eq_some_iff] at hc
        obtain ⟨call, hcall, rfl⟩ := hc
        refine ⟨call, hcall, ?_⟩
        have hsame := h.sameCall hcall
        split
        · exact ⟨rfl, rfl, rfl, hsame.channel, hsame.answered⟩
        · exact hsame
      · intro other c hc
        obtain ⟨call, hcall, hkey, hmetadata, hwaiting, hended⟩ := h.sender other c hc
        refine ⟨if g.calls.length - 1 = c then { call with forwarded := true } else call, ?_, ?_⟩
        · change (g.calls.modify _ _)[c]? = _
          rw [getElem?_modify, hcall, Option.map_some]
        · split
          · exact ⟨hkey, hmetadata, hwaiting, hended⟩
          · exact ⟨hkey, hmetadata, hwaiting, hended⟩

/-! ## Frames -/

theorem routed_removePendingMetadata (h : Routed g) {key : PendingKey} (hnone : g.sender key = none) :
    Routed (g.removePendingMetadata key) := by
  refine h.of_sameCalls [] (List.append_nil _).symm
    (fun c call hc => ⟨call, hc, h.sameCall hc⟩) ?_
  intro other c hc
  have hne : key ≠ other := by
    rintro rfl
    rw [show (g.removePendingMetadata key).sender key = g.sender key from rfl, hnone] at hc
    cases hc
  obtain ⟨call, hcall, hkey, hmetadata, hwaiting⟩ := h.sender other c hc
  refine ⟨call, hcall, hkey, ?_, hwaiting⟩
  change Function.update g.pendingMetadata key none other = _
  rw [Function.update_of_ne (Ne.symm hne)]
  exact hmetadata

theorem routed_appendFrame (h : Routed g) (frame : WorkerFrame) :
    Routed { g with frames := g.frames ++ [frame] } :=
  h.of_sameCalls [frame] rfl (fun _ call hc => ⟨call, hc, h.sameCall hc⟩) h.sender

/-- The call that is registered under the key gets the response of a frame that its metadata
admit. -/
theorem routed_deliver (h : Routed g) {key : PendingKey} (hc : g.sender key = some c)
    (frame : WorkerFrame) (hframe : ∀ call : Call, g.calls[c]? = some call →
      frame.stateId = call.key.stateId ∧ frame.tenantId = call.key.tenantId ∧
      frame.generation = call.metadata.workerGeneration ∧
      frame.response.requestId = call.key.requestId ∧ frame.response.isMesh = call.key.mesh ∧
      ∀ m, frame.response = .mesh m →
        ∃ limit, call.metadata.responseLimit = some limit ∧ m.body.length ≤ limit) :
    Routed { ((g.send c frame.response).removePending key).removePendingMetadata key with
      frames := g.frames ++ [frame] } := by
  obtain ⟨call, hcall, hkey, hmetadata, hwaiting, hended⟩ := h.sender key c hc
  obtain ⟨hstate, htenant, hgeneration, hid, hkind, hlimit⟩ := hframe call hcall
  have hcalls : ∀ i : Nat, (((g.send c frame.response).removePending key).removePendingMetadata
      key).calls[i]? = g.calls[i]?.map fun call =>
        if c = i then call.put (.sent g.frames.length frame.response) else call := by
    intro i
    change ((g.send c frame.response).removePending key).calls[i]? = _
    rw [removePending_calls]
    exact getElem?_modify _ c i _
  have hput : call.put (.sent g.frames.length frame.response) =
      { call with channel := .sent g.frames.length frame.response } := by
    simp [Call.put, hwaiting, hended]
  have hsent : (((g.send c frame.response).removePending key).removePendingMetadata key).calls[c]? =
      some { call with channel := .sent g.frames.length frame.response } := by
    rw [hcalls, hcall, Option.map_some, if_pos rfl, hput]
  have hsame : ∀ i : Nat, c ≠ i →
      (((g.send c frame.response).removePending key).removePendingMetadata key).calls[i]? =
        g.calls[i]? := by
    intro i hne
    rw [hcalls]
    simp [hne]
  have hfresh : ∀ (i : Nat) (other : Call) f response, g.calls[i]? = some other →
      other.channel = .sent f response → f < g.frames.length := by
    intro i other f response hi hchannel
    obtain ⟨_, hf, -⟩ := (h.belongs i other f response hi hchannel).frame
    exact (List.getElem?_eq_some_iff.1 hf).1
  refine ⟨fun other i hi => ?_, fun i other hi => ?_, fun i other f response hi hchannel => ?_,
    fun i i' other other' f response response' hi hi' hchannel hchannel' => ?_,
    fun i other response hi hended' => ?_⟩
  · change ((g.send c frame.response).removePending key).sender other = some i at hi
    rw [sender_removePending] at hi
    by_cases heq : key = other
    · rw [if_pos heq] at hi
      cases hi
    · rw [if_neg heq] at hi
      obtain ⟨found, hfound, hkey', hmetadata', hwaiting'⟩ := h.sender other i hi
      have hne : c ≠ i := by
        rintro rfl
        rw [hcall] at hfound
        cases hfound
        exact heq (hkey.symm.trans hkey')
      refine ⟨found, (hsame i hne).trans hfound, hkey', ?_, hwaiting'⟩
      change Function.update ((g.send c frame.response).removePending key).pendingMetadata key none
        other = _
      rw [Function.update_of_ne (Ne.symm heq), removePending_pendingMetadata]
      exact hmetadata'
  · change other.registered ≤ (g.frames ++ [frame]).length
    rw [List.length_append]
    change _[i]? = some other at hi
    by_cases hne : c = i
    · subst hne
      rw [hsent] at hi
      cases hi
      have := h.counted c call hcall
      exact Nat.le_add_right_of_le this
    · rw [hsame i hne] at hi
      exact Nat.le_add_right_of_le (h.counted i other hi)
  · change Belongs (g.frames ++ [frame]) other f response
    change _[i]? = some other at hi
    by_cases hne : c = i
    · subst hne
      rw [hsent] at hi
      cases hi
      cases hchannel
      refine ⟨⟨frame, ?_, rfl, hstate, htenant, hgeneration⟩, h.counted c call hcall, hid, hkind,
        hlimit⟩
      rw [List.getElem?_concat_length]
    · rw [hsame i hne] at hi
      exact (h.belongs i other f response hi hchannel).append [frame]
  · change _[i]? = some other at hi
    change _[i']? = some other' at hi'
    by_cases hne : c = i
    · by_cases hne' : c = i'
      · exact hne.symm.trans hne'
      · -- a frame that arrives is on no channel yet
        subst hne
        rw [hsent] at hi
        cases hi
        cases hchannel
        rw [hsame i' hne'] at hi'
        exact absurd (hfresh i' other' _ _ hi' hchannel') (Nat.lt_irrefl _)
    · rw [hsame i hne] at hi
      by_cases hne' : c = i'
      · subst hne'
        rw [hsent] at hi'
        cases hi'
        cases hchannel'
        exact absurd (hfresh i other _ _ hi hchannel) (Nat.lt_irrefl _)
      · rw [hsame i' hne'] at hi'
        exact h.once i i' other other' f response response' hi hi' hchannel hchannel'
  · change _[i]? = some other at hi
    by_cases hne : c = i
    · subst hne
      rw [hsent] at hi
      cases hi
      change call.ended = _ at hended'
      rw [hended] at hended'
      cases hended'
    · rw [hsame i hne] at hi
      exact h.answered i other response hi hended'

/-- Both tables, the calls and the frames are as they were. -/
structure Quiet (g g' : GatewayProcess) : Prop where
  sender : ∀ key, g'.sender key = g.sender key
  pendingMetadata : g'.pendingMetadata = g.pendingMetadata
  calls : g'.calls = g.calls
  frames : g'.frames = g.frames

theorem Quiet.refl (g : GatewayProcess) : Quiet g g := ⟨fun _ => rfl, rfl, rfl, rfl⟩

theorem quiet_setTenant {tenant : TenantState} (h : ∀ mesh, tenant.pending mesh =
      ((g.tenant stateId tenantId).getD (.new tenantId)).pending mesh) :
    Quiet g (g.setTenant stateId tenantId tenant) :=
  ⟨sender_setTenant h, rfl, rfl, rfl⟩

/-- What one step does to the two tables and the calls. -/
inductive Effect (g : GatewayProcess) : GatewayStep → GatewayProcess → Prop where
  | quiet (st : GatewayStep) (g' : GatewayProcess) (harrived : st.arrived = none)
      (h : Quiet g g') : Effect g st g'
  | registered (st : GatewayStep) (key : PendingKey) (hkey : st.key = some key)
      (g₁ : GatewayProcess) (hquiet : Quiet g g₁) (tenant : TenantState)
      (htenant : (g₁.tenant key.stateId key.tenantId).getD (.new key.tenantId) = tenant)
      (hfree : g.sender key = none) (metadata : PendingMetadata) (payload : Except String String)
      (sent : Except String Unit) :
      Effect g st ((g₁.registerPending tenant key metadata).forward key payload sent)
  | ended (st : GatewayStep) (c : Nat) (hst : st = .cancel c ∨ ∃ elapsed, st = .poll c elapsed)
      (call : Call) (hcall : g.calls[c]? = some call) (hended : call.ended = none) (ended : CallEnd)
      (hanswer : ∀ response, ended = .answered response → ∃ f, call.channel = .sent f response)
      (hlost : ended = .rejected
        (.rejected call.key.mesh call.key.requestId "worker_connection_lost") →
        call.channel = .closed) :
      Effect g st (g.endCall c ended)
  | orphaned (frame : WorkerFrame) :
      Effect g (.frame frame) { g with frames := g.frames ++ [frame] }
  | forgotten (frame : WorkerFrame) (hfree : g.sender frame.key = none) :
      Effect g (.frame frame)
        { g.removePendingMetadata frame.key with frames := g.frames ++ [frame] }
  | delivered (frame : WorkerFrame) (c : Nat) (hc : g.sender frame.key = some c)
      (hgeneration : ∀ metadata, g.pendingMetadata frame.key = some metadata →
        frame.generation = metadata.workerGeneration ∧ ∀ m, frame.response = .mesh m →
          ∃ limit, metadata.responseLimit = some limit ∧ m.body.length ≤ limit) :
      Effect g (.frame frame)
        { ((g.send c frame.response).removePending frame.key).removePendingMetadata frame.key with
          frames := g.frames ++ [frame] }
  | renewed (stateId : Nat)
      (hnone : ∀ (c : Nat) (call : Call), g.calls[c]? = some call → call.ended = none →
        call.key.stateId ≠ stateId) :
      Effect g (.renew stateId) (g.renew stateId)

/-! ### The connections -/

theorem pending_addWorker {tenant tenant' : TenantState} {conn : WorkerConnection}
    {capabilities : List CapabilityName} (h : tenant.addWorker conn capabilities = .ok tenant')
    (mesh : Bool) : tenant'.pending mesh = tenant.pending mesh := by
  unfold TenantState.addWorker at h
  dsimp only at h
  split at h
  · cases h
  · cases h
    rfl

theorem pending_removeWorkerIfCurrent (tenant : TenantState) (installationId : InstallationId)
    (coreId : CoreId) (generation : UInt64) (mesh : Bool) :
    (tenant.removeWorkerIfCurrent installationId coreId generation).1.pending mesh =
      tenant.pending mesh := by
  unfold TenantState.removeWorkerIfCurrent TenantState.removeWorker
  split
  · split <;> rfl
  · rfl

theorem pending_tryAddClient {tenant tenant' : TenantState} {connectionId : String}
    (h : tenant.tryAddClient connectionId = .ok tenant') (mesh : Bool) :
    tenant'.pending mesh = tenant.pending mesh := by
  unfold TenantState.tryAddClient at h
  split at h
  · cases h
  · cases h
    rfl

theorem admission_eq_some {tenant : TenantState} (h : g.admission stateId tenantId = some tenant) :
    tenant = (g.tenant stateId tenantId).getD (.new tenantId) := by
  unfold admission at h
  dsimp only at h
  split at h
  · cases h
  · split at h
    · cases h
    · cases h
      rfl

theorem quiet_connectWorker (stateId : Nat) (key : WorkerConnectionKey) (clusterId : ClusterId)
    (capabilities : List CapabilityName) (nowMs : UInt64) :
    Quiet g (g.connectWorker stateId key clusterId capabilities nowMs).2 := by
  unfold connectWorker
  dsimp only
  split
  · exact ⟨fun _ => rfl, rfl, rfl, rfl⟩
  next tenant hadmission =>
    have htenant := admission_eq_some hadmission
    split
    · exact ⟨(quiet_setTenant fun mesh => by rw [htenant]).sender, rfl, rfl, rfl⟩
    next tenant' hadd =>
      refine ⟨(quiet_setTenant fun mesh => ?_).sender, rfl, rfl, rfl⟩
      rw [pending_addWorker hadd, htenant]

theorem quiet_disconnectWorker (stateId : Nat) (key : WorkerConnectionKey) (generation : UInt64) :
    Quiet g (g.disconnectWorker stateId key generation) := by
  unfold disconnectWorker
  split
  · exact Quiet.refl g
  next tenant htenant =>
    refine quiet_setTenant fun mesh => ?_
    rw [pending_removeWorkerIfCurrent, htenant, Option.getD_some]

theorem quiet_connectClient (stateId : Nat) (tenantId : TenantId) (connectionId : String) :
    Quiet g (g.connectClient stateId tenantId connectionId) := by
  unfold connectClient
  split
  · exact Quiet.refl g
  next tenant hadmission =>
    have htenant := admission_eq_some hadmission
    split
    · exact quiet_setTenant fun mesh => by rw [htenant]
    next tenant' hadd =>
      refine quiet_setTenant fun mesh => ?_
      rw [pending_tryAddClient hadd, htenant]

theorem quiet_disconnectClient (stateId : Nat) (tenantId : TenantId) (connectionId : String) :
    Quiet g (g.disconnectClient stateId tenantId connectionId) := by
  unfold disconnectClient
  split
  · exact Quiet.refl g
  next tenant htenant =>
    refine quiet_setTenant fun mesh => ?_
    rw [htenant, Option.getD_some]
    cases mesh <;> rfl

theorem quiet_requestShutdown (stateId : Nat) : Quiet g (g.requestShutdown stateId) := by
  refine ⟨fun key => ?_, rfl, rfl, rfl⟩
  unfold sender tenant requestShutdown
  by_cases h : stateId = key.stateId
  · subst h
    simp
  · simp [Function.update_of_ne (Ne.symm h)]

/-! ### The calls -/

section

variable [Sha256] [GatewayJson]

theorem effect_routeRequest (stateId : Nat) (envelope : PeerRpc.PeerRpcEnvelope) (nowMs : UInt64)
    (found : Option WorkerConnection) (sent : Except String Unit) :
    Effect g (.request stateId envelope nowMs found sent)
      (g.routeRequest stateId envelope nowMs found sent).2 := by
  unfold routeRequest
  dsimp only
  split
  · exact .quiet _ _ rfl (Quiet.refl g)
  · have hquiet : Quiet g (g.setTenant stateId envelope.tenantId
        ((g.tenant stateId envelope.tenantId).getD (.new envelope.tenantId))) :=
      quiet_setTenant fun _ => rfl
    split
    · exact .quiet _ _ rfl hquiet
    next worker _ =>
      split
      next hfree =>
        refine .registered _ _ rfl _ hquiet _ ?_ ?_ _ _ _
        · rw [tenant_setTenant, if_pos ⟨rfl, rfl⟩, Option.getD_some]
        · rw [sender]
          have hnone := TenantState.getElem?_of_canRegisterPending hfree
          cases htenant : g.tenant stateId envelope.tenantId with
          | none => simp
          | some tenant =>
            rw [htenant] at hnone
            exact hnone
      · exact .quiet _ _ rfl hquiet

theorem effect_routeMeshRequest (stateId : Nat) (request : MeshPeerRequest)
    (found : Option WorkerConnection) (sent : Except String Unit) :
    Effect g (.meshRequest stateId request found sent)
      (g.routeMeshRequest stateId request found sent).2 := by
  unfold routeMeshRequest
  dsimp only
  split
  · exact .quiet _ _ rfl (Quiet.refl g)
  · split
    · exact .quiet _ _ rfl (Quiet.refl g)
    next tenant htenant =>
      split
      · exact .quiet _ _ rfl (Quiet.refl g)
      · split
        next hfree =>
          refine .registered _ _ rfl g (Quiet.refl g) tenant ?_ ?_ _ _ _
          · rw [htenant, Option.getD_some]
          · rw [sender]
            change (g.tenant stateId request.targetTenantId).bind _ = none
            rw [htenant]
            exact TenantState.getElem?_of_canRegisterPending hfree
        · exact .quiet _ _ rfl (Quiet.refl g)

end

theorem rejected_reason_ne {mesh : Bool} {requestId reason reason' : String} (h : reason ≠ reason') :
    CallEnd.rejected (.rejected mesh requestId reason) ≠
      .rejected (.rejected mesh requestId reason') := by
  intro heq
  cases mesh with
  | false =>
    injection heq with heq
    injection heq with heq
    injection heq with _ _ _ heq
    exact h (Option.some.inj heq)
  | true =>
    injection heq with heq
    injection heq with heq
    injection heq with _ _ _ _ heq
    exact h (Option.some.inj heq)

theorem effect_poll {elapsed : Bool} (h : g.poll c elapsed = some g') :
    Effect g (.poll c elapsed) g' := by
  unfold poll at h
  split at h
  · cases h
  next call hcall =>
    dsimp only at h
    split at h
    · cases h
    next hended =>
      have hended : call.ended = none := by simpa using hended
      have hst : GatewayStep.poll c elapsed = .cancel c ∨
          ∃ elapsed', GatewayStep.poll c elapsed = .poll c elapsed' := Or.inr ⟨elapsed, rfl⟩
      split at h
      · cases h
        exact .ended _ c hst call hcall hended _ nofun
          fun heq => absurd heq (rejected_reason_ne (by decide))
      · split at h
        next f response hchannel =>
          cases h
          refine .ended _ c hst call hcall hended _ (fun r heq => ?_) nofun
          cases heq
          exact ⟨f, hchannel⟩
        next hchannel =>
          cases h
          exact .ended _ c hst call hcall hended _ nofun fun _ => hchannel
        next hchannel =>
          split at h
          · cases h
            exact .ended _ c hst call hcall hended _ nofun
              fun heq => absurd heq (rejected_reason_ne (by decide))
          · cases h

theorem effect_cancel (h : g.cancel c = some g') : Effect g (.cancel c) g' := by
  unfold cancel at h
  split at h
  · cases h
  next call hcall =>
    split at h
    · cases h
    next hended =>
      cases h
      exact .ended _ c (Or.inl rfl) call hcall (by simpa using hended) _ nofun nofun

/-! ### The frames -/

theorem length_le_of_validateForRequest {response : MeshPeerResponse} {requestId : String}
    {limit : Nat} (h : response.validateForRequest requestId limit = .ok ()) :
    response.body.length ≤ limit := by
  unfold MeshPeerResponse.validateForRequest at h
  split at h
  · cases h
  · split at h
    · cases h
    next hle => exact Nat.le_of_not_lt hle

theorem effect_dispatchPending (frame : WorkerFrame) {accepts : PendingMetadata → Bool}
    (haccepts : ∀ metadata, accepts metadata = true →
      frame.generation = metadata.workerGeneration ∧ ∀ m, frame.response = .mesh m →
        ∃ limit, metadata.responseLimit = some limit ∧ m.body.length ≤ limit) :
    Effect g (.frame frame) { (g.dispatchPending frame.key accepts frame.response).2 with
      frames := g.frames ++ [frame] } := by
  unfold dispatchPending
  dsimp only
  split
  · exact .orphaned frame
  · split
    next hany =>
      split
      next c hc =>
        refine .delivered frame c hc fun metadata hmetadata => haccepts metadata ?_
        rw [hmetadata, Option.any_some] at hany
        exact hany
      next hfree => exact .forgotten frame hfree
    · exact .orphaned frame

theorem effect_handleWorkerFrame (frame : WorkerFrame) :
    Effect g (.frame frame) (g.handleWorkerFrame frame).2 := by
  obtain ⟨stateId, tenantId, generation, response⟩ := frame
  cases response with
  | plain response =>
    refine effect_dispatchPending ⟨stateId, tenantId, generation, .plain response⟩
      fun metadata h => ⟨by simpa using h, nofun⟩
  | mesh response =>
    refine effect_dispatchPending ⟨stateId, tenantId, generation, .mesh response⟩
      fun metadata h => ?_
    obtain ⟨hgeneration, hlimit⟩ := of_decide_eq_true h
    refine ⟨by simpa using hgeneration, fun m hm => ?_⟩
    cases hm
    cases hresponse : metadata.responseLimit with
    | none =>
      rw [hresponse] at hlimit
      cases hlimit
    | some limit =>
      rw [hresponse, Option.any_some] at hlimit
      exact ⟨limit, rfl, length_le_of_validateForRequest (of_decide_eq_true hlimit)⟩

variable {st : GatewayStep}

/-- **What a step can do**, once for all of them. -/
theorem effect_of_step [Sha256] [GatewayJson] (h : g.step st = some g') :
    Effect g st g' := by
  cases st with
  | request stateId envelope nowMs found sent =>
    simp only [step] at h
    split at h
    · cases h
      exact effect_routeRequest stateId envelope nowMs found sent
    · cases h
  | meshRequest stateId request found sent =>
    simp only [step] at h
    split at h
    · cases h
      exact effect_routeMeshRequest stateId request found sent
    · cases h
  | poll c elapsed => exact effect_poll h
  | cancel c => exact effect_cancel h
  | frame frame =>
    cases h
    exact effect_handleWorkerFrame frame
  | connectWorker stateId key clusterId capabilities nowMs =>
    cases h
    exact .quiet _ _ rfl (quiet_connectWorker stateId key clusterId capabilities nowMs)
  | disconnectWorker stateId key generation =>
    cases h
    exact .quiet _ _ rfl (quiet_disconnectWorker stateId key generation)
  | connectClient stateId tenantId connectionId =>
    cases h
    exact .quiet _ _ rfl (quiet_connectClient stateId tenantId connectionId)
  | disconnectClient stateId tenantId connectionId =>
    cases h
    exact .quiet _ _ rfl (quiet_disconnectClient stateId tenantId connectionId)
  | shutdown stateId =>
    cases h
    exact .quiet _ _ rfl (quiet_requestShutdown stateId)
  | renew stateId =>
    simp only [step] at h
    split at h
    next hall =>
      cases h
      refine .renewed stateId fun c call hc hended heq => ?_
      have hcall := List.all_eq_true.1 hall call (List.mem_of_getElem? hc)
      rcases of_decide_eq_true hcall with hne | hne
      · exact hne heq
      · exact hne hended
    · cases h

/-! ## Every step keeps the invariant -/

theorem Routed.of_quiet (h : Routed g) (hquiet : Quiet g g') : Routed g' :=
  h.of_same hquiet.sender hquiet.pendingMetadata hquiet.calls hquiet.frames

theorem sender_renew (stateId : Nat) (key : PendingKey) :
    (g.renew stateId).sender key = if stateId = key.stateId then none else g.sender key := by
  unfold sender tenant renew
  by_cases h : stateId = key.stateId
  · subst h
    simp
  · simp [h, Function.update_of_ne (Ne.symm h)]

theorem routed_step (h : Routed g) (heffect : Effect g st g') : Routed g' := by
  cases heffect with
  | quiet _ _ _ hquiet => exact h.of_quiet hquiet
  | registered _ key _ g₁ hquiet tenant htenant _ metadata payload sent =>
    exact routed_forward (routed_registerPending (h.of_quiet hquiet) htenant) key payload sent
  | ended _ c _ call hcall _ ended hanswer _ =>
    refine routed_endCall h fun call' response hc heq => ?_
    rw [hcall] at hc
    cases hc
    exact hanswer response heq
  | orphaned frame => exact routed_appendFrame h frame
  | forgotten frame hfree =>
    exact routed_appendFrame (routed_removePendingMetadata h hfree) frame
  | delivered frame c hc hgeneration =>
    refine routed_deliver h hc frame fun call hcall => ?_
    obtain ⟨call', hcall', hkey, hmetadata, -⟩ := h.sender frame.key c hc
    rw [hcall] at hcall'
    cases hcall'
    obtain ⟨hgen, hlimit⟩ := hgeneration call.metadata hmetadata
    rw [hkey]
    exact ⟨rfl, rfl, hgen, rfl, rfl, hlimit⟩
  | renewed stateId hnone =>
    refine h.of_sameCalls [] (List.append_nil _).symm
      (fun c call hc => ⟨call, hc, h.sameCall hc⟩) ?_
    intro key c hc
    rw [sender_renew] at hc
    split at hc
    · cases hc
    · exact h.sender key c hc

theorem sender_new (key : PendingKey) : new.sender key = none := by
  have h : new.tenant key.stateId key.tenantId = none := Std.ExtTreeMap.getElem?_empty
  rw [sender, h, Option.bind_none]

theorem routed_new : Routed new := by
  have hnone : ∀ (c : Nat) (call : Call), new.calls[c]? ≠ some call := fun _ _ h => by cases h
  refine ⟨fun key c hc => ?_, fun c call hc => absurd hc (hnone c call),
    fun c call _ _ hc => absurd hc (hnone c call),
    fun c _ call _ _ _ _ hc => absurd hc (hnone c call), fun c call _ hc => absurd hc (hnone c call)⟩
  rw [sender_new] at hc
  cases hc

@[simp] theorem forward_frames (key : PendingKey) (payload : Except String String)
    (sent : Except String Unit) : (g.forward key payload sent).frames = g.frames := by
  unfold forward
  cases payload with
  | error error => simp
  | ok text => cases sent <;> simp

theorem frames_of_effect (heffect : Effect g st g') :
    g'.frames = g.frames ++ st.arrived.toList := by
  cases heffect with
  | quiet _ _ harrived hquiet => rw [harrived, hquiet.frames, Option.toList_none, List.append_nil]
  | registered _ key hkey g₁ hquiet tenant _ _ metadata payload sent =>
    have harrived : st.arrived = none := by
      cases st <;> first | rfl | cases hkey
    rw [forward_frames, harrived, Option.toList_none, List.append_nil]
    exact hquiet.frames
  | ended _ c hst call _ _ ended _ _ =>
    have harrived : st.arrived = none := by
      rcases hst with rfl | ⟨elapsed, rfl⟩ <;> rfl
    rw [endCall_frames, harrived, Option.toList_none, List.append_nil]
  | orphaned frame => rfl
  | forgotten frame _ => rfl
  | delivered frame c _ _ => rfl
  | renewed stateId _ => exact (List.append_nil _).symm

end GatewayProcess

open GatewayProcess

section

variable [Sha256] [GatewayJson]

theorem routed_throughout (steps : List GatewayStep) :
    Throughout GatewayProcess.step Routed new steps :=
  throughout_of_step (P := fun _ _ => True) routed_new
    (fun _ _ _ h _ hstep => routed_step h (effect_of_step hstep)) fun _ _ _ _ _ _ => trivial

end

/-- **Responses reach the call they belong to.** When a call returns the answer of a worker, that is
what a frame carried which came after the call had registered, to its state and tenant, over the
connection it registered with, with its request id, of its kind and within its limit; and no frame
completes two calls. -/
theorem responses_belong [Sha256] [GatewayJson] (steps : List GatewayStep) (g : GatewayProcess)
    (hrun : runFrom GatewayProcess.step new steps = some g) :
    g.frames = steps.filterMap GatewayStep.arrived ∧
      (∀ (c : Nat) (call : Call) (response : WorkerResponse), g.calls[c]? = some call →
        call.ended = some (.answered response) →
        ∃ f, call.channel = .sent f response ∧ Belongs g.frames call f response) ∧
      ∀ (c c' : Nat) (call call' : Call) (f : Nat) (response response' : WorkerResponse),
        g.calls[c]? = some call → g.calls[c']? = some call' → call.channel = .sent f response →
        call'.channel = .sent f response' → c = c' := by
  have h := (routed_throughout steps).final hrun
  refine ⟨?_, fun c call response hc hended => ?_, h.once⟩
  · clear h
    induction steps using List.reverseRecOn generalizing g with
    | nil =>
      cases hrun
      rfl
    | append_singleton steps st ih =>
      obtain ⟨mid, hmid, hstep⟩ := runFrom_concat_eq_some.1 hrun
      rw [frames_of_effect (effect_of_step hstep), ih mid hmid, List.filterMap_append]
      cases hst : st.arrived <;> simp [hst]
  · obtain ⟨f, hf⟩ := h.answered c call response hc hended
    exact ⟨f, hf, h.belongs c call f response hc hf⟩

/-! ### A run -/

/-- A health request to a core. -/
def sampleRequest : MeshPeerRequest :=
  { schema := meshHttpSchemaV1, requestId := "request-1", targetTenantId := ⟨"tenant-a"⟩,
    targetCoreId := ⟨"core-a"⟩, method := "GET", path := "/v1/peer/health", body := [],
    bearerToken := none, timeoutMs := 1000, maxResponseBytes := 1024 }

def sampleAnswer : MeshPeerResponse :=
  { schema := meshHttpSchemaV1, requestId := "request-1", statusCode := 200, body := [],
    error := none }

def sampleAnswerText : String :=
  "\x7b\"schema\":\"appcore.gateway.mesh-http.v1\",\"request_id\":\"request-1\"," ++
    "\"status_code\":200,\"body\":[],\"error\":null\x7d"

/-- The JSON of these messages. -/
@[reducible] def sampleJson : GatewayJson where
  envelopeToString _ := .error "not part of this run"
  meshRequestToString request := .ok
    ("\x7b\"schema\":\"" ++ request.schema ++ "\",\"request_id\":\"" ++ request.requestId ++
      "\",\"target_tenant_id\":\"" ++ request.targetTenantId.asStr ++
      "\",\"target_core_id\":\"" ++ request.targetCoreId.asStr ++ "\",\"method\":\"" ++
      request.method ++ "\",\"path\":\"" ++ request.path ++
      "\",\"body\":[],\"bearer_token\":null,\"timeout_ms\":1000,\"max_response_bytes\":1024\x7d")
  envelopeFromSlice _ := none
  heartbeatKind text := if text = "\x7b\"type\":\"heartbeat\"\x7d" then some "heartbeat" else none
  meshResponseFromStr text := if text = sampleAnswerText then some sampleAnswer else none
  responseFromStr _ := none

/-- The worker that the request goes to. -/
def sampleWorker : WorkerConnection :=
  { key := ⟨⟨"tenant-a"⟩, ⟨"installation-a"⟩, ⟨"core-a"⟩⟩, clusterId := some ⟨"cluster-a"⟩,
    generation := 1 }

/-- The worker connects, is sent the request and answers it. -/
def sampleSteps : List GatewayStep :=
  [.connectWorker 0 sampleWorker.key ⟨"cluster-a"⟩ [] 1000,
    .meshRequest 0 sampleRequest (some sampleWorker) (.ok ()),
    .frame ⟨0, ⟨"tenant-a"⟩, 1, .mesh sampleAnswer⟩]

/-- The call returns the answer, which belongs to it. -/
theorem responses_belong_sample : ∃ g : GatewayProcess,
    @runFrom _ _ (@GatewayProcess.step Sha256.fips sampleJson) new
      (sampleSteps ++ [.poll 0 false]) = some g ∧
    ∃ (call : Call) (f : Nat), g.calls[0]? = some call ∧ call.channel = .sent f (.mesh sampleAnswer) ∧
      Belongs g.frames call f (.mesh sampleAnswer) := by
  have hrun : (@runFrom _ _ (@GatewayProcess.step Sha256.fips sampleJson) new
      (sampleSteps ++ [.poll 0 false])).map (fun g => g.calls[0]?.bind Call.ended) =
      some (some (.answered (.mesh sampleAnswer))) := by decide
  obtain ⟨g, hg, hended⟩ := Option.map_eq_some_iff.1 hrun
  obtain ⟨call, hcall, hended⟩ := Option.bind_eq_some_iff.1 hended
  obtain ⟨f, hf, hbelongs⟩ :=
    (@responses_belong Sha256.fips sampleJson _ g hg).2.1 0 call _ hcall hended
  exact ⟨g, hg, call, f, hcall, hf, hbelongs⟩

end AppCore.Gateway
