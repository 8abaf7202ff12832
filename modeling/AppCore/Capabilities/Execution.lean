import AppCore.Capabilities.ResolverProof

/-!
# What an accepted response stands for

`handle` calls the handler or the invoker and returns its answer. `handle_local` calls the handler,
and for a peer it makes up an accepted response: nothing runs.

* `accepted_executed` — when an accepted response is that of the one execution of the call.
-/

namespace AppCore.Capabilities

open ControlPlane PeerRpc CapabilityResolver

/-- The answer of an execution. -/
def CapabilityResolver.Execution.result : Execution → CapabilityResult CapabilityResponse
  | .handler _ _ result => result
  | .invocation _ _ result => result

/-- An execution gives a request to a provider: to the handler registered with its descriptor, or
to its peer. -/
def ExecutedFor (resolver : CapabilityResolver) (request : CapabilityRequest) :
    CapabilityProvider → Execution → Prop
  | .localCore _ descriptor, .handler provider called _ =>
    resolver.registry.get descriptor.name = some provider ∧ provider.descriptor = descriptor ∧
      called = request
  | .remote peer _ _, .invocation calledPeer called _ => calledPeer = peer ∧ called = request
  | _, _ => False

/-- An accepted response is that of the only execution, which is for the resolved provider. -/
def AcceptedIsExecuted (resolver : CapabilityResolver) (identity : CoreIdentity)
    (serviceId : ServiceId) (request : CapabilityRequest)
    (leadership : Option ServiceLeadershipGuard) (nowMs : UInt64)
    (outcome : CapabilityResult CapabilityResponse × List Execution) : Prop :=
  ∀ response, outcome.1 = .ok response → response.accepted = true →
    ∃ provider execution,
      resolver.resolve identity serviceId request leadership nowMs = .ok provider ∧
      outcome.2 = [execution] ∧ ExecutedFor resolver request provider execution ∧
      execution.result = .ok response

/-- A local provider that is resolved has the descriptor of the handler that accepts the request. -/
def LocalAsRegistered (resolver : CapabilityResolver) (identity : CoreIdentity)
    (serviceId : ServiceId) (request : CapabilityRequest)
    (leadership : Option ServiceLeadershipGuard) (nowMs : UInt64) : Prop :=
  ∀ coreId descriptor handler response,
    resolver.resolve identity serviceId request leadership nowMs =
      .ok (.localCore coreId descriptor) →
    resolver.registry.get request.capability = some handler →
    handler.handle request = .ok response → response.accepted = true →
      handler.descriptor = descriptor

/-- The resolved provider is a peer. -/
def ResolvedToPeer (resolver : CapabilityResolver) (identity : CoreIdentity)
    (serviceId : ServiceId) (request : CapabilityRequest)
    (leadership : Option ServiceLeadershipGuard) (nowMs : UInt64) : Prop :=
  ∃ peer descriptor preferred,
    resolver.resolve identity serviceId request leadership nowMs =
      .ok (.remote peer descriptor preferred)

variable {resolver : CapabilityResolver} {identity : CoreIdentity} {serviceId : ServiceId}
  {request : CapabilityRequest} {leadership : Option ServiceLeadershipGuard} {nowMs : UInt64}

/-- The call of a handler, for a local provider. -/
theorem acceptedIsExecuted_callHandler {coreId : CoreId} {descriptor : CapabilityDescriptor}
    (hresolve : resolver.resolve identity serviceId request leadership nowMs =
      .ok (.localCore coreId descriptor)) :
    AcceptedIsExecuted resolver identity serviceId request leadership nowMs
        (resolver.callHandler request) ↔
      LocalAsRegistered resolver identity serviceId request leadership nowMs := by
  unfold callHandler
  constructor
  · intro hexecuted coreId' descriptor' handler response hresolve' hhandler hanswer haccepted
    rw [hhandler] at hexecuted
    obtain ⟨provider, execution, hprovider, hone, hfor, -⟩ :=
      hexecuted response hanswer haccepted
    rw [hresolve'] at hprovider
    cases hprovider
    cases hone
    exact hfor.2.1
  · intro hregistered response hanswer haccepted
    cases hhandler : resolver.registry.get request.capability with
    | none =>
      rw [hhandler] at hanswer
      cases hanswer
    | some handler =>
      rw [hhandler] at hanswer
      have hdescriptor := hregistered coreId descriptor handler response hresolve hhandler
        hanswer haccepted
      have hname : descriptor.name = request.capability := by
        rw [← hdescriptor]
        exact resolver.registry.named _ handler hhandler
      exact ⟨_, _, hresolve, rfl, ⟨by rw [hname, hhandler], hdescriptor, rfl⟩, hanswer⟩

theorem acceptedIsExecuted_error {e : CapabilityError} :
    AcceptedIsExecuted resolver identity serviceId request leadership nowMs (.error e, []) := by
  intro response hresponse
  cases hresponse

theorem localAsRegistered_of_ne
    (hne : ∀ coreId descriptor,
      resolver.resolve identity serviceId request leadership nowMs ≠
        .ok (.localCore coreId descriptor)) :
    LocalAsRegistered resolver identity serviceId request leadership nowMs := by
  intro coreId descriptor _ _ hresolve
  exact absurd hresolve (hne coreId descriptor)

theorem acceptedIsExecuted_handle (remoteInvoker : Option RemoteCapabilityInvoker) :
    AcceptedIsExecuted resolver identity serviceId request leadership nowMs
        (resolver.handle identity serviceId request leadership remoteInvoker nowMs) ↔
      LocalAsRegistered resolver identity serviceId request leadership nowMs := by
  unfold handle
  cases hresolve : resolver.resolve identity serviceId request leadership nowMs with
  | error e =>
    exact iff_of_true acceptedIsExecuted_error
      (localAsRegistered_of_ne fun _ _ => by simp [hresolve])
  | ok provider =>
    cases provider with
    | localCore coreId descriptor => exact acceptedIsExecuted_callHandler hresolve
    | remote peer descriptor preferred =>
      refine iff_of_true ?_ (localAsRegistered_of_ne fun _ _ => by simp [hresolve])
      cases remoteInvoker with
      | none => exact acceptedIsExecuted_error
      | some invoke =>
        intro response hanswer _
        exact ⟨_, _, hresolve, rfl, ⟨rfl, rfl⟩, hanswer⟩

theorem acceptedIsExecuted_handleLocal :
    AcceptedIsExecuted resolver identity serviceId request leadership nowMs
        (resolver.handleLocal identity serviceId request leadership nowMs) ↔
      LocalAsRegistered resolver identity serviceId request leadership nowMs ∧
        ¬ ResolvedToPeer resolver identity serviceId request leadership nowMs := by
  unfold handleLocal ResolvedToPeer
  cases hresolve : resolver.resolve identity serviceId request leadership nowMs with
  | error e =>
    exact iff_of_true acceptedIsExecuted_error
      ⟨localAsRegistered_of_ne fun _ _ => by simp [hresolve], by simp⟩
  | ok provider =>
    cases provider with
    | localCore coreId descriptor =>
      show AcceptedIsExecuted _ _ _ _ _ _ (resolver.callHandler request) ↔ _
      rw [acceptedIsExecuted_callHandler hresolve]
      simp
    | remote peer descriptor preferred =>
      refine iff_of_false ?_ fun h => h.2 ⟨peer, descriptor, preferred, rfl⟩
      intro hexecuted
      obtain ⟨_, _, _, hnone, _⟩ := hexecuted _ rfl rfl
      cases hnone

/-- **When accepted means executed**: for both calls, the local provider that is resolved is the
registered one, and for `handle_local` it is not a peer. -/
theorem accepted_executed (resolver : CapabilityResolver) (identity : CoreIdentity)
    (serviceId : ServiceId) (request : CapabilityRequest)
    (leadership : Option ServiceLeadershipGuard) (remoteInvoker : Option RemoteCapabilityInvoker)
    (nowMs : UInt64) :
    (AcceptedIsExecuted resolver identity serviceId request leadership nowMs
        (resolver.handle identity serviceId request leadership remoteInvoker nowMs) ↔
      LocalAsRegistered resolver identity serviceId request leadership nowMs) ∧
    (AcceptedIsExecuted resolver identity serviceId request leadership nowMs
        (resolver.handleLocal identity serviceId request leadership nowMs) ↔
      LocalAsRegistered resolver identity serviceId request leadership nowMs ∧
        ¬ ResolvedToPeer resolver identity serviceId request leadership nowMs) :=
  ⟨acceptedIsExecuted_handle remoteInvoker, acceptedIsExecuted_handleLocal⟩

/-- **A peer is reported to have accepted** a request that nothing was sent for. -/
theorem handleLocal_peer_accepted :
    ¬ ∀ (resolver : CapabilityResolver) (identity : CoreIdentity) (serviceId : ServiceId)
      (request : CapabilityRequest) (leadership : Option ServiceLeadershipGuard) (nowMs : UInt64),
      AcceptedIsExecuted resolver identity serviceId request leadership nowMs
        (resolver.handleLocal identity serviceId request leadership nowMs) := by
  intro hclaim
  have hexecuted := hclaim (sampleResolver "a") (sampleCore "a" "caller") ⟨"orders"⟩ sampleRequest
    (some sampleGuard) 5
  rw [acceptedIsExecuted_handleLocal] at hexecuted
  refine hexecuted.2 ⟨samplePeer "a", sampleDescriptor, false, ?_⟩
  rw [resolve_eq_ok]
  refine ⟨rfl, by decide, fun _ => ?_⟩
  unfold LeaderAllowed
  decide

end AppCore.Capabilities
