import AppCore.PeerRpc.NonceFile
import AppCore.PeerRpc.Validation

/-!
# Replay protection

An accepted nonce is remembered until the envelope expires or one window after the call,
whichever comes first; the envelope itself stays acceptable until it expires or one window
after its own timestamp. The two ends line up for a call made after the timestamp or close
to the expiry. For the others the nonce is forgotten first:

* `no_replay_unexposed` — in a run without such calls no envelope is accepted twice.
-/

namespace AppCore.PeerRpc

/-- The checks `validate` makes before it looks at the nonce. -/
def Admissible [Sha256] (validator : PeerRpcValidator) (envelope : PeerRpcEnvelope)
    (nowMs : UInt64) : Prop :=
  checkRouting validator envelope = .ok () ∧
    checkTime validator.windowMs envelope nowMs = .ok () ∧ checkIntegrity envelope = .ok ()

instance [Sha256] (validator : PeerRpcValidator) (envelope : PeerRpcEnvelope) (nowMs : UInt64) :
    Decidable (Admissible validator envelope nowMs) :=
  inferInstanceAs (Decidable (_ ∧ _ ∧ _))

/-- A call that is not late relative to the timestamp and expires beyond the window: the nonce
is kept for one window, and the envelope is acceptable at its end. -/
def Exposed [Sha256] (validator : PeerRpcValidator) (envelope : PeerRpcEnvelope)
    (nowMs : UInt64) : Prop :=
  Admissible validator envelope nowMs ∧ nowMs ≤ envelope.timestampMs ∧
    saturatingAdd nowMs validator.windowMs < envelope.expiresAtMs

instance [Sha256] (validator : PeerRpcValidator) (envelope : PeerRpcEnvelope) (nowMs : UInt64) :
    Decidable (Exposed validator envelope nowMs) :=
  inferInstanceAs (Decidable (_ ∧ _ ∧ _))

/-- No envelope is accepted twice in a run: of two calls with the same envelope, the later one
fails if the earlier one was accepted. -/
def NoReplay (calls : List (PeerRpcEnvelope × UInt64)) (results : List PeerRpcResult) : Prop :=
  ∀ (i j : Nat) (envelope : PeerRpcEnvelope) (t₁ t₂ : UInt64), i < j →
    calls[i]? = some (envelope, t₁) → calls[j]? = some (envelope, t₂) →
    results[i]? = some (Except.ok ()) → results[j]? ≠ some (Except.ok ())

/-- Calls made at times that never go back. -/
def Nondecreasing (calls : List (PeerRpcEnvelope × UInt64)) : Prop :=
  (calls.map (·.2)).Pairwise (· ≤ ·)

instance (calls : List (PeerRpcEnvelope × UInt64)) : Decidable (Nondecreasing calls) :=
  inferInstanceAs (Decidable (List.Pairwise _ _))

/-- The time until which an accepted nonce is remembered. -/
def nonceExpiry (validator : PeerRpcValidator) (envelope : PeerRpcEnvelope) (nowMs : UInt64) :
    UInt64 :=
  min envelope.expiresAtMs (saturatingAdd nowMs validator.windowMs)

theorem toNat_nonceExpiry (validator : PeerRpcValidator) (envelope : PeerRpcEnvelope)
    (now : UInt64) :
    (nonceExpiry validator envelope now).toNat =
      min envelope.expiresAtMs.toNat (min (now.toNat + validator.windowMs.toNat) (2 ^ 64 - 1)) := by
  rw [← toNat_saturatingAdd]
  show (if envelope.expiresAtMs ≤ saturatingAdd now validator.windowMs then envelope.expiresAtMs
    else saturatingAdd now validator.windowMs).toNat = _
  split
  · rename_i h
    rw [min_eq_left (UInt64.le_iff_toNat_le.1 h)]
  · rename_i h
    rw [UInt64.le_iff_toNat_le, not_le] at h
    rw [min_eq_right h.le]

/-- An envelope accepted by an unexposed call is acceptable only while its nonce is
remembered. -/
theorem lt_nonceExpiry_of_admissible [Sha256] {validator : PeerRpcValidator}
    {envelope : PeerRpcEnvelope} {t₁ t₂ : UInt64} (h₁ : Admissible validator envelope t₁)
    (hexposed : ¬ Exposed validator envelope t₁) (h₂ : Admissible validator envelope t₂) :
    t₂ < nonceExpiry validator envelope t₁ := by
  obtain ⟨-, hexpires, -, hlate⟩ := checkTime_eq_ok.1 h₂.2.1
  have hwindow : ¬ (t₁ ≤ envelope.timestampMs ∧
      saturatingAdd t₁ validator.windowMs < envelope.expiresAtMs) := fun h => hexposed ⟨h₁, h⟩
  have hbound := envelope.expiresAtMs.toNat_lt
  simp only [UInt64.le_iff_toNat_le, UInt64.lt_iff_toNat_lt, toNat_saturatingAdd,
    toNat_nonceExpiry] at *
  omega

/-- At the end of its nonce's lifetime an exposed envelope is still acceptable. -/
theorem admissible_nonceExpiry [Sha256] {validator : PeerRpcValidator}
    {envelope : PeerRpcEnvelope} {t : UInt64} (h : Exposed validator envelope t) :
    t ≤ nonceExpiry validator envelope t ∧
      Admissible validator envelope (nonceExpiry validator envelope t) := by
  obtain ⟨⟨hrouting, htime, hintegrity⟩, hlate, hwindow⟩ := h
  obtain ⟨hstart, hexpires, hearly, -⟩ := checkTime_eq_ok.1 htime
  have hbound := envelope.expiresAtMs.toNat_lt
  refine ⟨?_, hrouting, checkTime_eq_ok.2 ⟨hstart, ?_, ?_, ?_⟩, hintegrity⟩ <;>
    simp only [UInt64.le_iff_toNat_le, UInt64.lt_iff_toNat_lt, toNat_saturatingAdd,
      toNat_nonceExpiry] at * <;>
    omega

/-! ## Runs -/

section Store

variable [Sha256] {S : Type} [PeerNonceStore S]

theorem validate_accepted {validator : PeerRpcValidator} {store : S}
    {envelope : PeerRpcEnvelope} {now : UInt64}
    (h : (validate validator store envelope now).1 = .ok ()) :
    Admissible validator envelope now ∧
      validate validator store envelope now =
        checkAndRecord store envelope.nonce (nonceExpiry validator envelope now) now := by
  rcases validate_cases validator store envelope now with
    ⟨e, herror⟩ | ⟨hrouting, htime, hintegrity, heq⟩
  · rw [herror] at h
    simp at h
  · exact ⟨⟨hrouting, htime, hintegrity⟩, heq⟩

theorem validate_of_admissible {validator : PeerRpcValidator} {envelope : PeerRpcEnvelope}
    {now : UInt64} (h : Admissible validator envelope now) (store : S) :
    validate validator store envelope now =
      checkAndRecord store envelope.nonce (nonceExpiry validator envelope now) now := by
  obtain ⟨hrouting, htime, hintegrity⟩ := h
  simp only [validate, hrouting, htime, hintegrity, nonceExpiry]

/-- Only acceptable envelopes are accepted, whatever came before. -/
theorem admissible_of_accepted {validator : PeerRpcValidator} {envelope : PeerRpcEnvelope}
    {t : UInt64} {calls : List (PeerRpcEnvelope × UInt64)} {store : S} {j : Nat}
    (hcall : calls[j]? = some (envelope, t))
    (hresult : (validateAll validator store calls)[j]? = some (.ok ())) :
    Admissible validator envelope t := by
  induction calls generalizing store j with
  | nil => simp at hcall
  | cons call calls ih =>
    cases j with
    | zero =>
      obtain rfl : call = (envelope, t) := by simpa using hcall
      exact (validate_accepted (by simpa [validateAll] using hresult)).1
    | succ j =>
      exact ih (by simpa using hcall) (by simpa [validateAll] using hresult)

variable [RemembersNonces S]

open RemembersNonces

/-- A call before the expiry of a remembered nonce leaves it remembered. -/
theorem held_validate (validator : PeerRpcValidator) {store : S} {nonce : String}
    {expiry now : UInt64} (envelope : PeerRpcEnvelope) (hheld : held store nonce expiry)
    (hlive : now < expiry) : held (validate validator store envelope now).2 nonce expiry := by
  rcases validate_cases validator store envelope now with ⟨e, heq⟩ | ⟨-, -, -, heq⟩
  · rw [heq]
    exact hheld
  · rw [heq]
    exact keep _ _ _ hheld hlive

/-- While the nonce of an envelope is remembered for as long as the envelope is acceptable, no
call of the run accepts it. -/
theorem not_accepted_of_held {validator : PeerRpcValidator} {envelope : PeerRpcEnvelope}
    {expiry : UInt64} (hcover : ∀ t, Admissible validator envelope t → t < expiry)
    {calls : List (PeerRpcEnvelope × UInt64)} (hmono : Nondecreasing calls) {store : S}
    (hheld : held store envelope.nonce expiry) {j : Nat} {t : UInt64}
    (hcall : calls[j]? = some (envelope, t)) :
    (validateAll validator store calls)[j]? ≠ some (.ok ()) := by
  induction calls generalizing store j with
  | nil => simp at hcall
  | cons call calls ih =>
    obtain ⟨other, now⟩ := call
    rw [Nondecreasing, List.map_cons, List.pairwise_cons] at hmono
    cases j with
    | zero =>
      obtain ⟨rfl, rfl⟩ : other = envelope ∧ now = t := by simpa using hcall
      intro hresult
      have haccepted : (validate validator store other now).1 = .ok () := by
        simpa [validateAll] using hresult
      obtain ⟨hadm, heq⟩ := validate_accepted haccepted
      rw [heq] at haccepted
      exact reject _ _ hheld (hcover now hadm) haccepted
    | succ j =>
      -- The call asked about comes later, so a call at an acceptable time is still live now.
      by_cases hadm : Admissible validator envelope t
      · have hnow : now ≤ t := by
          refine hmono.1 t (List.mem_map.2 ⟨(envelope, t), ?_, rfl⟩)
          exact List.mem_of_getElem? (by simpa using hcall)
        have hlive : now < expiry := UInt64.lt_of_le_of_lt hnow (hcover t hadm)
        have hlater := ih hmono.2 (held_validate validator other hheld hlive)
          (by simpa using hcall)
        simpa [validateAll] using hlater
      · intro hresult
        exact hadm (admissible_of_accepted hcall hresult)

/-- **Replay protection over a run**: when no call is exposed, no envelope is accepted twice. -/
theorem validateAll_noReplay {validator : PeerRpcValidator}
    {calls : List (PeerRpcEnvelope × UInt64)} (hmono : Nondecreasing calls)
    (hguarded : ∀ call ∈ calls, ¬ Exposed validator call.1 call.2) (store : S) :
    NoReplay calls (validateAll validator store calls) := by
  induction calls generalizing store with
  | nil =>
    intro i j envelope t₁ t₂ _ hi
    simp at hi
  | cons call calls ih =>
    obtain ⟨first, now⟩ := call
    intro i j envelope t₁ t₂ hij hi hj haccepted
    obtain ⟨j, rfl⟩ : ∃ k, j = k + 1 := ⟨j - 1, by omega⟩
    have htail : Nondecreasing calls := (List.pairwise_cons.1 hmono).2
    cases i with
    | zero =>
      -- The accepted call records the nonce; the rest of the run cannot forget it in time.
      obtain ⟨rfl, rfl⟩ : first = envelope ∧ now = t₁ := by simpa using hi
      have hfirst : (validate validator store first now).1 = .ok () := by
        simpa [validateAll] using haccepted
      obtain ⟨hadm, heq⟩ := validate_accepted hfirst
      have hunexposed := hguarded (first, now) List.mem_cons_self
      have hheld : held (validate validator store first now).2 first.nonce
          (nonceExpiry validator first now) := by
        rw [heq] at hfirst ⊢
        exact record hfirst
      have hlater := not_accepted_of_held
        (fun t ht => lt_nonceExpiry_of_admissible hadm hunexposed ht) htail hheld
        (show calls[j]? = some (first, t₂) by simpa using hj)
      simpa [validateAll] using hlater
    | succ i =>
      have hlater := ih htail (fun c hc => hguarded c (List.mem_cons_of_mem _ hc))
        (validate validator store first now).2 i j envelope t₁ t₂ (by omega)
        (by simpa using hi) (by simpa using hj) (by simpa [validateAll] using haccepted)
      simpa [validateAll] using hlater

end Store

/-- **No envelope is accepted twice**, with either store, in a run without exposed calls. -/
theorem no_replay_unexposed [Sha256] [Codec PersistedNonceState] (validator : PeerRpcValidator)
    (calls : List (PeerRpcEnvelope × UInt64)) (hmono : Nondecreasing calls)
    (hunexposed : ∀ call ∈ calls, ¬ Exposed validator call.1 call.2) :
    NoReplay calls (validateAll validator InMemoryPeerNonceStore.new calls) ∧
      NoReplay calls (validateAll validator FilePeerNonceStore.new calls) :=
  ⟨validateAll_noReplay hmono hunexposed _, validateAll_noReplay hmono hunexposed _⟩

/-- A validator of `core-b` with a window, for the runs below. -/
def coreB (nonceWindowMs : UInt64) : PeerRpcValidator :=
  ⟨⟨⟨"tenant-a"⟩, ⟨"cluster-a"⟩, ⟨"core-b"⟩, 1024, nonceWindowMs⟩, ⟨1⟩⟩

/-- A request to `core-b`. -/
def requestToB [Sha256] (timestampMs expiresAtMs : UInt64) : PeerRpcEnvelope :=
  PeerRpcEnvelope.new "req-1" "trace-1" ⟨"core-a"⟩ ⟨"core-b"⟩ ⟨"tenant-a"⟩ ⟨"cluster-a"⟩
    timestampMs expiresAtMs "nonce-1" ⟨"runtime.query"⟩ [123, 125] none none

theorem no_replay_unexposed_late :
    ∃ (sha : Sha256) (codec : Codec PersistedNonceState)
      (calls : List (PeerRpcEnvelope × UInt64)), sha = Sha256.fips ∧ codec = nonceStateJson ∧
      calls = [(requestToB 10 1000, 20), (requestToB 10 1000, 20)] ∧
      validateAll (coreB 10) InMemoryPeerNonceStore.new calls = [.ok (), .error .nonceReplay] ∧
      NoReplay calls (validateAll (coreB 10) InMemoryPeerNonceStore.new calls) ∧
      NoReplay calls (validateAll (coreB 10) FilePeerNonceStore.new calls) := by
  have hmono : Nondecreasing [(@requestToB Sha256.fips 10 1000, 20),
      (@requestToB Sha256.fips 10 1000, 20)] := by decide
  have hunexposed : ∀ call ∈ [(@requestToB Sha256.fips 10 1000, (20 : UInt64)),
      (@requestToB Sha256.fips 10 1000, 20)],
      ¬ @Exposed Sha256.fips (coreB 10) call.1 call.2 := by decide +kernel
  exact ⟨Sha256.fips, nonceStateJson, _, rfl, rfl, rfl, by decide +kernel,
    @no_replay_unexposed Sha256.fips nonceStateJson _ _ hmono hunexposed⟩

/-- A request made at its own timestamp is accepted a second time when its window is over. -/
theorem replay_after_window :
    ¬ ∀ (_ : Sha256) (validator : PeerRpcValidator) (calls : List (PeerRpcEnvelope × UInt64)),
      Nondecreasing calls →
        NoReplay calls (validateAll validator InMemoryPeerNonceStore.new calls) := by
  intro h
  let _ := Sha256.fips
  have hclaim := h Sha256.fips (coreB 10) [(requestToB 20 1000, 20), (requestToB 20 1000, 30)]
    (by decide +kernel) 0 1 (requestToB 20 1000) 20 30 (by decide) rfl rfl (by decide +kernel)
  revert hclaim
  decide +kernel

/-- The nonce of an exposed call is forgotten at the end of its window, and the envelope is
accepted once more. -/
theorem exposed_replayed [Sha256] {validator : PeerRpcValidator} {envelope : PeerRpcEnvelope}
    {t : UInt64} (h : Exposed validator envelope t) :
    ∃ t₂, t ≤ t₂ ∧ validateAll validator InMemoryPeerNonceStore.new
      [(envelope, t), (envelope, t₂)] = [.ok (), .ok ()] := by
  obtain ⟨hle, hadm⟩ := admissible_nonceExpiry h
  refine ⟨nonceExpiry validator envelope t, hle, ?_⟩
  have hfirst : validate validator InMemoryPeerNonceStore.new envelope t =
      (.ok (), ⟨(∅ : NonceMap).insert envelope.nonce (nonceExpiry validator envelope t),
        [envelope.nonce]⟩) := by
    rw [validate_of_admissible h.1]
    simp [checkAndRecord, InMemoryPeerNonceStore.new, retainMemory, maxNonceCacheEntries]
  have hsecond := validate_of_admissible hadm (validate validator InMemoryPeerNonceStore.new
    envelope t).2
  simp only [validateAll, hfirst] at hsecond ⊢
  rw [hsecond]
  have hroom : ¬ 65536 ≤ (((∅ : NonceMap).insert envelope.nonce
      (nonceExpiry validator envelope t)).erase envelope.nonce).size := by
    simp [Std.ExtTreeMap.size_erase, Std.ExtTreeMap.size_insert]
  simp [checkAndRecord, retainMemory, maxNonceCacheEntries, hroom]

end AppCore.PeerRpc
