import AppCore.Base.Evaluation
import AppCore.Base.Runs
import AppCore.Storage.RemoteAuthProof

/-!
# Whose answer a call returns

Processes on any hosts share the transport secret and call one auth service. Who carries the
messages may drop, delay, reorder, duplicate and swap them: a token is served, and bytes are handed
to a call, whenever a step says so.

* `returned_belongs` — while no two calls that ask for different things draw the same millisecond,
  process identifier and counter, every answer that a call returns was processed for that call.
-/

namespace AppCore.Storage.Remote

/-! ## The system -/

/-- A process: its identifier and the counter of its nonces. -/
structure Process where
  id : UInt32
  counter : UInt64
  deriving DecidableEq

/-- The process after a call: a counter is drawn once the checks are passed. -/
def Process.next (process : Process) (resource operation : String) : Process :=
  if validateResource resource = .ok () ∧ validateOperation operation = .ok () then
    { process with counter := process.counter + 1 }
  else process

/-- A call that posted its request: what it asks for, and what its nonce is made of. -/
structure Call where
  resource : String
  operation : String
  payload : Bytes
  nowMs : UInt64
  process : Process
  request : AuthRemoteRequest
  deriving DecidableEq

/-- A request that the service answered. -/
structure Processed (Seed : Type) where
  request : AuthRemoteRequest
  dataMs : UInt64
  dataSeed : Seed
  response : AuthRemoteResponse
  deriving DecidableEq

/-- The processes, the calls they made, the tokens sealed for the transport with what is in them,
the requests the service answered and what calls returned. -/
structure Hosts (Seed : Type) where
  processes : List Process := []
  calls : List Call := []
  sealed : List (Bytes × Bytes) := []
  processed : List (Processed Seed) := []
  returned : List (Call × Bytes) := []

/-- What happens next. -/
inductive Event (Seed : Type) where
  | start (id : UInt32)
  | begin (process : Nat) (resource operation : String) (payload : Bytes) (nowMs sealMs : UInt64)
      (seed : Seed)
  | serve (token : List Char) (serving : Serving Seed)
  | finish (call : Nat) (maxResponseBytes : Nat) (raw : Bytes) (last : RemoteAuthStorageClient.End)

variable {Seed : Type}

/-- A step of the system. A failed call, and a request that is refused, leave no trace but the
counter. -/
def step (transport data : TimedProvider Seed) (s : Hosts Seed) : Event Seed → Option (Hosts Seed)
  | .start id => some { s with processes := s.processes ++ [⟨id, 0⟩] }
  | .begin i resource operation payload nowMs sealMs seed =>
    s.processes[i]?.map fun process =>
      let drawn := { s with processes := s.processes.set i (process.next resource operation) }
      match RemoteAuthStorageClient.begin ⟨transport, defaultAuthRemoteMaxBytes⟩ resource
          operation payload ⟨nowMs, sealMs, process.id, process.counter, seed⟩ with
      | .error _ => drawn
      | .ok (request, token) =>
        { drawn with
          calls := s.calls ++ [⟨resource, operation, payload, nowMs, process, request⟩]
          sealed := s.sealed ++ [(utf8 token, requestToVec request)] }
  | .serve token serving =>
    some <| match serve transport data token serving with
      | .error _ => s
      | .ok (request, response, answer) =>
        { s with
          sealed := s.sealed ++ [(utf8 answer, responseToVec response)]
          processed :=
            s.processed ++ [⟨request, serving.dataMs, serving.dataSeed, response⟩] }
  | .finish i maxResponseBytes raw last =>
    s.calls[i]?.map fun call =>
      match RemoteAuthStorageClient.finish ⟨transport, maxResponseBytes⟩ call.request.nonce raw
          last with
      | .error _ => s
      | .ok out => { s with returned := s.returned ++ [(call, out)] }

/-! ## What is assumed, and what is to be shown -/

/-- The provider opens a token only when it sealed it. -/
def OpensSealed (transport : TimedProvider Seed) (s : Hosts Seed) (openMs : UInt64)
    (token : List Char) : Prop :=
  ∀ document,
    transport.openToken openMs (utf8 token) (transportClaims defaultAuthRemoteTtlMs) = .ok document →
      (utf8 token, document) ∈ s.sealed

/-- An ideal provider, at a step. -/
def Ideal (transport : TimedProvider Seed) (s : Hosts Seed) : Event Seed → Prop
  | .serve token serving => OpensSealed transport s serving.openMs token
  | .finish _ maxResponseBytes raw last =>
    ∀ token, readHttpResponse raw maxResponseBytes = .ok token →
      OpensSealed transport s last.openMs token
  | _ => True

/-- Two calls ask for the same. -/
def Call.SameAs (call other : Call) : Prop :=
  call.resource = other.resource ∧ call.operation = other.operation ∧ call.payload = other.payload

/-- A call that draws what an earlier one drew asks for the same as that one. -/
def DrawsApart (s : Hosts Seed) : Event Seed → Prop
  | .begin i resource operation payload nowMs _ _ =>
    ∀ process, s.processes[i]? = some process → ∀ call ∈ s.calls,
      call.nowMs = nowMs → call.process = process →
        call.resource = resource ∧ call.operation = operation ∧ call.payload = payload
  | _ => True

/-- What a call returned is what the service made of a request for its resource, its operation and
its payload. -/
def Belongs (data : TimedProvider Seed) (s : Hosts Seed) : Prop :=
  ∀ returned ∈ s.returned, ∃ processed ∈ s.processed,
    processed.request.resource = returned.1.resource ∧
      processed.request.operation = returned.1.operation ∧
      processed.request.payloadHex = encodeHex returned.1.payload ∧
      processRemoteRequest processed.request data processed.dataMs processed.dataSeed =
        .ok processed.response ∧
      decodeHex processed.response.payloadHex = some returned.2

/-! ## Every sealed document is accounted for -/

/-- The invariant: a token holds the request of a call or the answer to one, and calls with one
nonce ask for the same. -/
structure Accounted (data : TimedProvider Seed) (s : Hosts Seed) : Prop where
  made : ∀ call ∈ s.calls, makeAuthRequest call.resource call.operation call.payload call.nowMs
    call.process.id call.process.counter = .ok call.request
  apart : ∀ call ∈ s.calls, ∀ other ∈ s.calls,
    call.request.nonce = other.request.nonce → call.SameAs other
  processed : ∀ processed ∈ s.processed, (∃ call ∈ s.calls, processed.request = call.request) ∧
    processRemoteRequest processed.request data processed.dataMs processed.dataSeed =
      .ok processed.response
  sealed : ∀ x ∈ s.sealed, (∃ call ∈ s.calls, x.2 = requestToVec call.request) ∨
    ∃ processed ∈ s.processed, x.2 = responseToVec processed.response
  returned : Belongs data s

theorem fields_of_made {resource operation : String} {payload : Bytes} {nowMs : UInt64}
    {process : UInt32} {counter : UInt64} {request : AuthRemoteRequest}
    (h : makeAuthRequest resource operation payload nowMs process counter = .ok request) :
    request.resource = resource ∧ request.operation = operation ∧
      request.payloadHex = encodeHex payload ∧ request.nonce = makeNonce nowMs process counter := by
  obtain ⟨-, -, rfl⟩ := makeAuthRequest_eq_ok.1 h
  exact ⟨rfl, rfl, rfl, rfl⟩

theorem draw_of_nonce {call other : Call}
    (hcall : makeAuthRequest call.resource call.operation call.payload call.nowMs call.process.id
      call.process.counter = .ok call.request)
    (hother : makeAuthRequest other.resource other.operation other.payload other.nowMs
      other.process.id other.process.counter = .ok other.request)
    (h : call.request.nonce = other.request.nonce) :
    call.nowMs = other.nowMs ∧ call.process = other.process := by
  obtain ⟨-, -, -, hnonce⟩ := fields_of_made hcall
  obtain ⟨-, -, -, hnonce'⟩ := fields_of_made hother
  obtain ⟨hnow, hid, hcounter⟩ := makeNonce_injective (hnonce ▸ hnonce' ▸ h)
  refine ⟨hnow, ?_⟩
  cases hp : call.process
  cases hq : other.process
  rw [hp, hq] at hid hcounter
  exact congrArg₂ Process.mk hid hcounter

theorem Call.SameAs.symm {call other : Call} (h : call.SameAs other) : other.SameAs call :=
  ⟨h.1.symm, h.2.1.symm, h.2.2.symm⟩

section

variable {transport data : TimedProvider Seed} {s : Hosts Seed}

/-- A call whose draw is apart from the earlier ones is added with its token. -/
theorem Accounted.begin (h : Accounted data s) {processes : List Process} {call : Call}
    {token : Bytes}
    (hmade : makeAuthRequest call.resource call.operation call.payload call.nowMs call.process.id
      call.process.counter = .ok call.request)
    (hapart : ∀ other ∈ s.calls, other.nowMs = call.nowMs → other.process = call.process →
      other.SameAs call) :
    Accounted data { s with
      processes := processes
      calls := s.calls ++ [call]
      sealed := s.sealed ++ [(token, requestToVec call.request)] } := by
  have hnew : ∀ other ∈ s.calls, other.request.nonce = call.request.nonce → other.SameAs call := by
    intro other hother hnonce
    obtain ⟨hnow, hprocess⟩ := draw_of_nonce (h.made other hother) hmade hnonce
    exact hapart other hother hnow hprocess
  constructor
  · intro other hother
    obtain hother | hother := List.mem_append.1 hother
    · exact h.made other hother
    · rw [List.mem_singleton.1 hother]
      exact hmade
  · intro first hfirst second hsecond hnonce
    obtain hfirst | hfirst := List.mem_append.1 hfirst
    · obtain hsecond | hsecond := List.mem_append.1 hsecond
      · exact h.apart first hfirst second hsecond hnonce
      · rw [List.mem_singleton.1 hsecond] at hnonce ⊢
        exact hnew first hfirst hnonce
    · rw [List.mem_singleton.1 hfirst] at hnonce ⊢
      obtain hsecond | hsecond := List.mem_append.1 hsecond
      · exact (hnew second hsecond hnonce.symm).symm
      · rw [List.mem_singleton.1 hsecond]
        exact ⟨rfl, rfl, rfl⟩
  · intro processed hprocessed
    obtain ⟨⟨other, hother, hrequest⟩, hresponse⟩ := h.processed processed hprocessed
    exact ⟨⟨other, List.mem_append_left _ hother, hrequest⟩, hresponse⟩
  · intro x hx
    obtain hx | hx := List.mem_append.1 hx
    · obtain ⟨other, hother, hdocument⟩ | hanswer := h.sealed x hx
      · exact Or.inl ⟨other, List.mem_append_left _ hother, hdocument⟩
      · exact Or.inr hanswer
    · rw [List.mem_singleton.1 hx]
      exact Or.inl ⟨call, by simp, rfl⟩
  · exact h.returned

theorem Accounted.request_of_open (h : Accounted data s) {token : List Char} {openMs nowMs : UInt64}
    {request : AuthRemoteRequest} (hideal : OpensSealed transport s openMs token)
    (hopen : openRemoteRequest token transport openMs nowMs = .ok request) :
    ∃ call ∈ s.calls, request = call.request := by
  obtain ⟨document, hdocument, hread, -⟩ := openRemoteRequest_eq_ok.1 hopen
  obtain ⟨call, hcall, heq⟩ | ⟨processed, -, heq⟩ := h.sealed _ (hideal document hdocument)
  · rw [show document = _ from heq, requestFromSlice_requestToVec] at hread
    exact ⟨call, hcall, (Option.some.inj hread).symm⟩
  · rw [show document = _ from heq, requestFromSlice_responseToVec] at hread
    cases hread

theorem Accounted.response_of_open (h : Accounted data s) {token : List Char} {nonce : String}
    {openMs nowMs : UInt64} {out : Bytes} (hideal : OpensSealed transport s openMs token)
    (hopen : openRemoteResponse token transport nonce openMs nowMs = .ok out) :
    ∃ processed ∈ s.processed, processed.response.nonce = nonce ∧
      decodeHex processed.response.payloadHex = some out := by
  obtain ⟨document, response, hdocument, hread, hvalid, hdecoded⟩ :=
    openRemoteResponse_eq_ok.1 hopen
  obtain ⟨call, -, heq⟩ | ⟨processed, hprocessed, heq⟩ := h.sealed _ (hideal document hdocument)
  · rw [show document = _ from heq, responseFromSlice_requestToVec] at hread
    cases hread
  · rw [show document = _ from heq, responseFromSlice_responseToVec] at hread
    cases hread
    exact ⟨processed, hprocessed, (validateResponse_eq_ok.1 hvalid).2.1, hdecoded⟩

/-- The answer to a request of a call is added with its token. -/
theorem Accounted.serve (h : Accounted data s) (processed : Processed Seed) {token : Bytes}
    (hcall : ∃ call ∈ s.calls, processed.request = call.request)
    (hresponse : processRemoteRequest processed.request data processed.dataMs processed.dataSeed =
      .ok processed.response) :
    Accounted data { s with
      sealed := s.sealed ++ [(token, responseToVec processed.response)]
      processed := s.processed ++ [processed] } := by
  constructor
  · exact h.made
  · exact h.apart
  · intro other hother
    obtain hother | hother := List.mem_append.1 hother
    · exact h.processed other hother
    · rw [List.mem_singleton.1 hother]
      exact ⟨hcall, hresponse⟩
  · intro x hx
    obtain hx | hx := List.mem_append.1 hx
    · obtain hcall | ⟨other, hother, hdocument⟩ := h.sealed x hx
      · exact Or.inl hcall
      · exact Or.inr ⟨other, List.mem_append_left _ hother, hdocument⟩
    · rw [List.mem_singleton.1 hx]
      exact Or.inr ⟨processed, by simp, rfl⟩
  · intro returned hreturned
    obtain ⟨other, hother, hbelongs⟩ := h.returned returned hreturned
    exact ⟨other, List.mem_append_left _ hother, hbelongs⟩

theorem Accounted.belongs (h : Accounted data s) {call : Call} (hcall : call ∈ s.calls)
    {processed : Processed Seed} (hprocessed : processed ∈ s.processed)
    (hnonce : processed.response.nonce = call.request.nonce) :
    processed.request.resource = call.resource ∧ processed.request.operation = call.operation ∧
      processed.request.payloadHex = encodeHex call.payload := by
  obtain ⟨⟨asked, hasked, hrequest⟩, hresponse⟩ := h.processed processed hprocessed
  obtain ⟨_, _, -, -, heq⟩ := processRemoteRequest_eq_ok.1 hresponse
  have hsame : asked.SameAs call := by
    refine h.apart asked hasked call hcall ?_
    rw [← hrequest, ← hnonce, heq]
  obtain ⟨hresource, hoperation, hpayload, -⟩ := fields_of_made (h.made asked hasked)
  obtain ⟨hresource', hoperation', hpayload'⟩ := hsame
  rw [hrequest, hresource, hoperation, hpayload, hpayload']
  exact ⟨hresource', hoperation', rfl⟩

theorem Accounted.finish (h : Accounted data s) {call : Call} (hcall : call ∈ s.calls) {out : Bytes}
    (hanswer : ∃ processed ∈ s.processed, processed.response.nonce = call.request.nonce ∧
      decodeHex processed.response.payloadHex = some out) :
    Accounted data { s with returned := s.returned ++ [(call, out)] } := by
  refine ⟨h.made, h.apart, h.processed, h.sealed, ?_⟩
  intro returned hreturned
  obtain hreturned | hreturned := List.mem_append.1 hreturned
  · exact h.returned returned hreturned
  · rw [List.mem_singleton.1 hreturned]
    obtain ⟨processed, hprocessed, hnonce, hdecoded⟩ := hanswer
    obtain ⟨hresource, hoperation, hpayload⟩ := h.belongs hcall hprocessed hnonce
    exact ⟨processed, hprocessed, hresource, hoperation, hpayload,
      (h.processed processed hprocessed).2, hdecoded⟩

/-- **One step.** -/
theorem accounted_step {s' : Hosts Seed} {event : Event Seed} (h : Accounted data s)
    (hideal : Ideal transport s event) (hapart : DrawsApart s event)
    (hstep : step transport data s event = some s') : Accounted data s' := by
  cases event with
  | start id =>
    cases hstep
    exact ⟨h.made, h.apart, h.processed, h.sealed, h.returned⟩
  | begin i resource operation payload nowMs sealMs seed =>
    obtain ⟨process, hprocess, rfl⟩ := Option.map_eq_some_iff.1 hstep
    dsimp only
    split
    · exact ⟨h.made, h.apart, h.processed, h.sealed, h.returned⟩
    next request token hbegin =>
      exact h.begin (begin_eq_ok.1 hbegin).1 (hapart process hprocess)
  | serve token serving =>
    cases hstep
    split
    · exact h
    next request response answer hserve =>
      obtain ⟨hopen, hprocess, -⟩ := serve_eq_ok.1 hserve
      have hcall := h.request_of_open hideal hopen
      exact h.serve ⟨request, serving.dataMs, serving.dataSeed, response⟩ hcall hprocess
  | finish i maxResponseBytes raw last =>
    obtain ⟨call, hcall, rfl⟩ := Option.map_eq_some_iff.1 hstep
    split
    · exact h
    next out hfinish =>
      obtain ⟨token, hread, hopen⟩ := finish_eq_ok.1 hfinish
      exact h.finish (List.mem_of_getElem? hcall) (h.response_of_open (hideal token hread) hopen)

/-- **An answer that a call returns is its own.** The provider is ideal, and no two calls that ask
for different things draw the same. -/
theorem returned_belongs {steps : List (Event Seed)}
    (h : EachStep (step transport data) (fun s event => Ideal transport s event ∧ DrawsApart s event)
      {} steps) :
    Throughout (step transport data) (Belongs data) {} steps := by
  have hstart : Accounted data ({} : Hosts Seed) := by
    constructor <;> intro x hx <;> simp at hx
  have hthroughout : Throughout (step transport data) (Accounted data) {} steps :=
    throughout_of_step hstart
      (fun _ _ _ hinv hnext hstep => accounted_step hinv hnext.1 hnext.2 hstep) h
  exact hthroughout.imp fun _ hinv => hinv.returned

instance (s : Hosts Seed) (openMs : UInt64) (token : List Char) :
    Decidable (OpensSealed transport s openMs token) :=
  match h : transport.openToken openMs (utf8 token) (transportClaims defaultAuthRemoteTtlMs) with
  | .ok document => decidable_of_iff ((utf8 token, document) ∈ s.sealed) (by simp [OpensSealed, h])
  | .error _ => isTrue (by simp [OpensSealed, h])

instance (s : Hosts Seed) : (event : Event Seed) → Decidable (Ideal transport s event)
  | .start _ => isTrue trivial
  | .begin .. => isTrue trivial
  | .serve token serving => inferInstanceAs (Decidable (OpensSealed transport s serving.openMs token))
  | .finish _ maxResponseBytes raw last =>
    match h : readHttpResponse raw maxResponseBytes with
    | .ok token => decidable_of_iff (OpensSealed transport s last.openMs token) (by simp [Ideal, h])
    | .error _ => isTrue (by simp [Ideal, h])

instance (s : Hosts Seed) : (event : Event Seed) → Decidable (DrawsApart s event)
  | .start _ => isTrue trivial
  | .begin i resource operation payload nowMs _ _ =>
    match h : s.processes[i]? with
    | some process => decidable_of_iff (∀ call ∈ s.calls, call.nowMs = nowMs →
        call.process = process → call.resource = resource ∧ call.operation = operation ∧
          call.payload = payload) (by simp [DrawsApart, h])
    | none => isTrue (by simp [DrawsApart, h])
  | .serve .. => isTrue trivial
  | .finish .. => isTrue trivial

instance (s : Hosts Seed) : Decidable (Belongs data s) :=
  inferInstanceAs (Decidable (∀ returned ∈ s.returned, ∃ processed ∈ s.processed, _))

end

/-! ## Two hosts -/

/-- What a process asks for with its first call, in the first second. -/
def firstRequest (process : UInt32) (resource : String) (payload : Bytes) : AuthRemoteRequest :=
  ⟨authRemoteSchema, resource, "seal", makeNonce 1000 process 0, 1000, 11000, encodeHex payload⟩

/-- The answer to it. -/
def firstResponse (process : UInt32) (payload : Bytes) : AuthRemoteResponse :=
  ⟨authRemoteSchema, "ok", makeNonce 1000 process 0, 11000, encodeHex (0 :: payload)⟩

/-- The documents of two processes that seal a file each. -/
def exchanged (first second : UInt32) : List Bytes :=
  [requestToVec (firstRequest first "first.bin" [1]),
    requestToVec (firstRequest second "second.bin" [2]),
    responseToVec (firstResponse first [1]), responseToVec (firstResponse second [2])]

/-- The steps of two processes. The first is handed the token at a place. -/
def exchange (first second : UInt32) (place : Char) : List (Event Unit) :=
  let serving : Serving Unit := ⟨1001, 1001, 1001, (), 1001, ()⟩
  [.start first, .start second,
    .begin 0 "first.bin" "seal" [1] 1000 1000 (), .begin 1 "second.bin" "seal" [2] 1000 1000 (),
    .serve [Char.ofNat 0] serving, .serve [Char.ofNat 1] serving,
    .finish 0 defaultAuthRemoteMaxBytes (strBytes "HTTP/1.1 200 OK\r\n\r\n" ++ utf8 [place])
      ⟨1002, 1002⟩]

theorem returned_belongs_exchange : ∃ s,
    runFrom (step (listedTransport (exchanged 7 8)) taggedData) {} (exchange 7 8 (Char.ofNat 2)) =
        some s ∧ s.returned.map Prod.snd = [[0, 1]] ∧
      Throughout (step (listedTransport (exchanged 7 8)) taggedData) (Belongs taggedData) {}
        (exchange 7 8 (Char.ofNat 2)) := by
  have hrun : (checkRun (step (listedTransport (exchanged 7 8)) taggedData)
      (fun s event => Ideal (listedTransport (exchanged 7 8)) s event ∧ DrawsApart s event) {}
      (exchange 7 8 (Char.ofNat 2))).any (fun s => s.returned.map Prod.snd = [[0, 1]]) = true := by
    delta step serve openRemoteRequest openRemoteResponse RemoteAuthStorageClient.begin
      RemoteAuthStorageClient.finish sealRemoteRequest sealRemoteResponse sealDocument
      readHttpResponse requestFromSlice responseFromSlice
    rw [fromUtf8_eq_ascii]
    decide +kernel
  obtain ⟨s, hcheck, hreturned⟩ := (Option.any_eq_true _ _).1 hrun
  obtain ⟨hrun, heach⟩ := of_checkRun hcheck
  exact ⟨s, hrun, of_decide_eq_true hreturned, returned_belongs heach⟩

/-- With one identifier on both hosts, the first process is handed what the second one asked for. -/
theorem swapped_answers :
    ¬ ∀ (Seed : Type) (transport data : TimedProvider Seed) (steps : List (Event Seed)),
      EachStep (step transport data) (Ideal transport) {} steps →
        Throughout (step transport data) (Belongs data) {} steps := by
  intro h
  have hrun : (checkRun (step (listedTransport (exchanged 7 7)) taggedData)
      (Ideal (listedTransport (exchanged 7 7))) {} (exchange 7 7 (Char.ofNat 3))).any
        (fun s => ¬ Belongs taggedData s) = true := by
    delta step serve openRemoteRequest openRemoteResponse RemoteAuthStorageClient.begin
      RemoteAuthStorageClient.finish sealRemoteRequest sealRemoteResponse sealDocument
      readHttpResponse requestFromSlice responseFromSlice
    rw [fromUtf8_eq_ascii]
    decide +kernel
  obtain ⟨s, hcheck, hnot⟩ := (Option.any_eq_true _ _).1 hrun
  obtain ⟨hrun, heach⟩ := of_checkRun hcheck
  have hbelongs := (h Unit (listedTransport (exchanged 7 7)) taggedData _ heach).final hrun
  exact of_decide_eq_true hnot hbelongs

end AppCore.Storage.Remote
