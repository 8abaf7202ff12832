import AppCore.Lease.RepositoryProof

/-!
# Fencing

Any number of processes call the repository, one call at a time under the lock of the resource, with
whatever clocks. A call returns, is stopped somewhere, or fails at a system call and cleans up. The
repository may be opened again at any time, with another policy.

* `lease_fencing` — epochs that were handed out increase; a token that passes the fence is the one
  written last and was not released; and as long as it passes, nobody else gets the lease.

The invariant is about the epoch file: it is at least every epoch handed out, and no call lowers it.
-/

namespace AppCore.Lease

/-- One call: what was asked, the reply when it returned, and the disk before and after. -/
structure Event where
  repository : FileLeaseRepository
  request : Request
  reply : Option (ProviderResult Reply)
  before : Disk
  after : Disk

/-- The calls about a resource. -/
inductive Happens (root : Path) (resource : String) : Event → Prop where
  | returned {repository : FileLeaseRepository} {request : Request} (before : Disk)
      (hroot : repository.root = root) (hresource : request.resource = resource) :
      Happens root resource ⟨repository, request, some ((repository.perform request).result before),
        before, (repository.perform request).final before⟩
  | stopped {repository : FileLeaseRepository} {request : Request} {before after : Disk}
      (hroot : repository.root = root) (hresource : request.resource = resource)
      (hstop : after ∈ (repository.perform request).stops before) :
      Happens root resource ⟨repository, request, none, before, after⟩
  | failed {repository : FileLeaseRepository} {request : Request} {before after cleaned : Disk}
      {temp : TempName} (hroot : repository.root = root) (hresource : request.resource = resource)
      (hstop : after ∈ (repository.perform request).stops before) (htemp : temp ∈ request.temps)
      (hclean : after.remove (root ++ [temp.name]) = .ok cleaned) :
      Happens root resource ⟨repository, request, none, before, cleaned⟩

/-- The calls on a disk, in their order, and the disk they lead to. -/
inductive Run (root : Path) (resource : String) (start : Disk) : List Event → Disk → Prop where
  | start : Run root resource start [] start
  | call {events : List Event} {e : Event} (h : Run root resource start events e.before)
      (he : Happens root resource e) : Run root resource start (events ++ [e]) e.after
  | reopened {events : List Event} {d t : Disk} {policy : LeasePolicy}
      (h : Run root resource start events d)
      (hstop : t ∈ (FileLeaseRepository.openAt root policy).stops d) :
      Run root resource start events t

/-- The epoch of an `acquire` that succeeded. -/
def Event.acquired (e : Event) : Option UInt64 :=
  match e.request, e.reply with
  | .acquire .., some (.ok (.lease lease)) => some lease.token.epoch
  | _, _ => none

/-- An `acquire` that wrote its lease. -/
def Event.Placed (root : Path) (resource : String) (e : Event) (token : LeaseToken) : Prop :=
  (∃ epochTemp stateTemp owner nowMs,
    e.request = .acquire epochTemp stateTemp resource owner nowMs) ∧
  e.after.get (leaseFile root resource) ≠ e.before.get (leaseFile root resource) ∧
  ∃ lease : SharedResourceLease, lease.token = token ∧
    e.after.get (leaseFile root resource) = some (.file (utf8 (stateText lease)))

/-- A `release` that took effect. -/
def Event.Released (root : Path) (resource : String) (e : Event) (token : LeaseToken) : Prop :=
  e.request = .release token ∧ e.before.get (leaseFile root resource) ≠ none ∧
    e.after.get (leaseFile root resource) = none

/-- The token of the last lease that was written, not released since. -/
def Outstanding (root : Path) (resource : String) (events : List Event) (token : LeaseToken) :
    Prop :=
  ∃ earlier e later, events = earlier ++ e :: later ∧ e.Placed root resource token ∧
    ∀ e' ∈ later, (∀ token', ¬ e'.Placed root resource token') ∧ ¬ e'.Released root resource token

/-! ## The invariant -/

/-- What the durable state says about the calls so far. -/
structure Inv (root : Path) (resource : String) (events : List Event) (s : Durable) : Prop where
  increasing : (events.filterMap Event.acquired).Pairwise (· < ·)
  reserved : ∀ epoch ∈ events.filterMap Event.acquired, ∃ high, s.epoch = some high ∧ epoch ≤ high
  outstanding : ∀ lease, s.lease = some lease → Outstanding root resource events lease.token

section Steps

variable {root : Path} {resource : String} {events : List Event} {e : Event} {s s' : Durable}

theorem Outstanding.append {token : LeaseToken} (h : Outstanding root resource events token)
    (hplaced : ∀ token', ¬ e.Placed root resource token')
    (hreleased : ¬ e.Released root resource token) :
    Outstanding root resource (events ++ [e]) token := by
  obtain ⟨earlier, e₀, later, rfl, h₀, hlater⟩ := h
  refine ⟨earlier, e₀, later ++ [e], by simp, h₀, fun e' he' => ?_⟩
  rcases List.mem_append.1 he' with he' | he'
  · exact hlater e' he'
  · rw [List.mem_singleton.1 he']
    exact ⟨hplaced, hreleased⟩

theorem not_placed_of_same
    (h : e.after.get (leaseFile root resource) = e.before.get (leaseFile root resource))
    (token : LeaseToken) : ¬ e.Placed root resource token ∧ ¬ e.Released root resource token := by
  constructor
  · rintro ⟨-, hne, -⟩
    exact hne h
  · rintro ⟨-, hbefore, hafter⟩
    rw [h] at hafter
    exact hbefore hafter

theorem Stored.get_eq {d t : Disk} (h : Stored root resource s d) (h' : Stored root resource s' t)
    (hlease : s'.lease = s.lease) :
    t.get (leaseFile root resource) = d.get (leaseFile root resource) := by
  rw [h.lease, h'.lease, hlease]

theorem stateText_ne {old new : SharedResourceLease} (hvalid : ValidResource new.token.resource)
    (hresource : old.token.resource = new.token.resource)
    (hepoch : old.token.epoch < new.token.epoch) :
    utf8 (stateText new) ≠ utf8 (stateText old) := by
  intro heq
  have htext : stateText new = stateText old :=
    Option.some.inj ((fromUtf8_utf8 _).symm.trans (heq ▸ fromUtf8_utf8 _))
  have hnew := parseState_stateText (oneLine_of_validateLabel hvalid)
  have hold := @parseState_stateText old (hresource ▸ oneLine_of_validateLabel hvalid)
  rw [htext, ← hresource, hold] at hnew
  obtain rfl := Except.ok.inj hnew
  exact absurd hepoch (UInt64.lt_irrefl _)

theorem Change.epoch_le {policy : LeasePolicy} {request : Request}
    (h : Change policy s request s') {high : UInt64} (hhigh : s.epoch = some high) :
    ∃ high', s'.epoch = some high' ∧ high ≤ high' := by
  cases h with
  | kept => exact ⟨high, hhigh, UInt64.le_refl _⟩
  | reserved h => exact ⟨_, rfl, UInt64.le_of_lt ((next_spec h).2.1 high hhigh)⟩
  | placed hvalid h => exact ⟨_, rfl, UInt64.le_of_lt ((next_spec h).2.1 high hhigh)⟩
  | renewed h htoken => exact ⟨high, hhigh, UInt64.le_refl _⟩
  | released h htoken => exact ⟨high, hhigh, UInt64.le_refl _⟩

/-- The lease after a call is outstanding when the one before it was. -/
theorem outstanding_step (hbefore : Stored root resource s e.before)
    (hafter : Stored root resource s' e.after) (hresource : e.request.resource = resource)
    (h : Change e.repository.policy s e.request s')
    (hout : ∀ lease, s.lease = some lease → Outstanding root resource events lease.token)
    {lease : SharedResourceLease} (hlease : s'.lease = some lease) :
    Outstanding root resource (events ++ [e]) lease.token := by
  have hkept (hsame : s'.lease = s.lease) :
      Outstanding root resource (events ++ [e]) lease.token := by
    have hget := hbefore.get_eq hafter hsame
    rw [hsame] at hlease
    exact (hout lease hlease).append (fun token => (not_placed_of_same hget token).1)
      (not_placed_of_same hget lease.token).2
  generalize hrequest : e.request = request at h hresource
  cases h with
  | kept => exact hkept rfl
  | reserved h => exact hkept rfl
  | @placed epochTemp stateTemp resource' owner nowMs new hvalid h =>
    obtain rfl := Option.some.inj hlease
    obtain rfl : resource' = resource := hresource
    refine ⟨events, e, [], rfl, ⟨⟨epochTemp, stateTemp, owner, nowMs, hrequest⟩, ?_, new, rfl,
      hafter.lease⟩, by simp⟩
    rw [hafter.lease, hbefore.lease]
    cases hold : s.lease with
    | none => simp
    | some old =>
      obtain ⟨hnew, -, hepoch⟩ := next_spec h
      have hne := @stateText_ne old new (hnew ▸ hvalid)
        ((hbefore.resource old hold).trans hnew.symm) (hepoch old hold)
      simpa using hne
  | @renewed stateTemp beat old new h htoken =>
    obtain rfl := Option.some.inj hlease
    rw [htoken]
    refine (hout old h).append (fun token hplaced => ?_) fun hreleased => ?_
    · obtain ⟨⟨_, _, _, _, hacquire⟩, -⟩ := hplaced
      rw [hrequest] at hacquire
      simp at hacquire
    · have hrelease := hreleased.1
      rw [hrequest] at hrelease
      simp at hrelease
  | released h htoken => simp at hlease

/-- The epoch of a lease that was returned is written, and it is a new one. -/
theorem perform_acquired {repository : FileLeaseRepository} {request : Request} {d : Disk}
    (h : Stored repository.root request.resource s d) :
    ∃ s', Stored repository.root request.resource s' ((repository.perform request).final d) ∧
      Change repository.policy s request s' ∧
      ∀ epoch, (Event.mk repository request (some ((repository.perform request).result d)) d
          ((repository.perform request).final d)).acquired = some epoch →
        s'.epoch = some epoch ∧ ∀ high, s.epoch = some high → high < epoch := by
  obtain ⟨s', hs', hchange⟩ := (wp_perform h).2
  cases request with
  | acquire epochTemp stateTemp resource owner nowMs =>
    have hwp : (repository.perform (.acquire epochTemp stateTemp resource owner nowMs)).wp
        (fun _ => True) (fun r t => ∀ lease, r = .ok (.lease lease) → ValidResource resource ∧
          s.next repository.policy resource owner nowMs = .ok lease ∧
          Stored repository.root resource ⟨some lease, some lease.token.epoch⟩ t) d := by
      refine wp_wrap (Prog.wp_mono (wp_acquire h) (fun _ _ => trivial) fun r t ht lease hr => ?_)
      cases r with
      | error e => simp [Except.map] at hr
      | ok found =>
        simp only [Except.map, Except.ok.injEq, Reply.lease.injEq] at hr
        exact ht.2 lease (congrArg Except.ok hr)
    have hlast := hwp.2
    generalize (repository.perform (.acquire epochTemp stateTemp resource owner nowMs)).result d =
      reply at hlast ⊢
    by_cases hok : ∃ lease, reply = .ok (.lease lease)
    · obtain ⟨lease, rfl⟩ := hok
      obtain ⟨hvalid, hnext, hstored⟩ := hlast lease rfl
      refine ⟨_, hstored, .placed hvalid hnext, fun epoch hepoch => ?_⟩
      obtain rfl : lease.token.epoch = epoch := Option.some.inj hepoch
      exact ⟨rfl, (next_spec hnext).2.1⟩
    · refine ⟨s', hs', hchange, fun epoch hepoch => ?_⟩
      unfold Event.acquired at hepoch
      split at hepoch
      · rename_i lease _ hreply
        exact absurd ⟨lease, Option.some.inj hreply⟩ hok
      · simp at hepoch
  | heartbeat stateTemp beat =>
    exact ⟨s', hs', hchange, fun epoch hepoch => by simp [Event.acquired] at hepoch⟩
  | release token =>
    exact ⟨s', hs', hchange, fun epoch hepoch => by simp [Event.acquired] at hepoch⟩
  | current resource =>
    exact ⟨s', hs', hchange, fun epoch hepoch => by simp [Event.acquired] at hepoch⟩
  | checkFence token nowMs =>
    exact ⟨s', hs', hchange, fun epoch hepoch => by simp [Event.acquired] at hepoch⟩

theorem acquired_none (repository : FileLeaseRepository) (request : Request) (before after : Disk) :
    (Event.mk repository request none before after).acquired = none := by
  cases request <;> rfl

theorem leaves_of_stops {repository : FileLeaseRepository} {request : Request} {d t : Disk}
    (h : Stored repository.root request.resource s d)
    (ht : t ∈ (repository.perform request).stops d) : Leaves repository s request t := by
  rcases List.mem_cons.1 ht with rfl | ht
  · exact leaves_kept h
  · exact (wp_perform h).1 t ht

/-- What a call does, with the lease it returned. -/
theorem change_of_happens (h : Happens root resource e)
    (hbefore : Stored root resource s e.before) :
    e.request.resource = resource ∧
    ∃ s', Stored root resource s' e.after ∧ Change e.repository.policy s e.request s' ∧
      ∀ epoch, e.acquired = some epoch → s'.epoch = some epoch ∧
        ∀ high, s.epoch = some high → high < epoch := by
  cases h with
  | returned before hroot hresource =>
    subst hroot hresource
    exact ⟨rfl, perform_acquired hbefore⟩
  | stopped hroot hresource hstop =>
    subst hroot hresource
    obtain ⟨s', hs', hchange⟩ := leaves_of_stops hbefore hstop
    refine ⟨rfl, s', hs', hchange, fun epoch hepoch => ?_⟩
    rw [acquired_none] at hepoch
    simp at hepoch
  | failed hroot hresource hstop htemp hclean =>
    subst hroot hresource
    obtain ⟨s', hs', hchange⟩ := leaves_of_stops hbefore hstop
    refine ⟨rfl, s', hs'.of_get ?_ ?_, hchange, fun epoch hepoch => ?_⟩
    · rw [Disk.get_remove hclean, leaseFile, if_neg (concat_ne lease_ne_name)]
    · rw [Disk.get_remove hclean, epochFile, if_neg (concat_ne epoch_ne_name)]
    · rw [acquired_none] at hepoch
      simp at hepoch

/-- **The step lemma.** -/
theorem inv_step (h : Happens root resource e) (hbefore : Stored root resource s e.before)
    (hinv : Inv root resource events s) :
    ∃ s', Stored root resource s' e.after ∧ Inv root resource (events ++ [e]) s' := by
  obtain ⟨hresource, s', hafter, hchange, hacquired⟩ := change_of_happens h hbefore
  refine ⟨s', hafter, ?_, ?_, fun lease hlease =>
    outstanding_step hbefore hafter hresource hchange hinv.outstanding hlease⟩
  · rw [List.filterMap_append, List.pairwise_append]
    refine ⟨hinv.increasing, ?_, fun old hold new hnew => ?_⟩
    · cases hepoch : e.acquired <;> simp [hepoch]
    · obtain ⟨high, hhigh, hle⟩ := hinv.reserved old hold
      have hnew : e.acquired = some new := by simpa using hnew
      exact UInt64.lt_of_le_of_lt hle ((hacquired new hnew).2 high hhigh)
  · intro epoch hepoch
    rw [List.filterMap_append, List.mem_append] at hepoch
    rcases hepoch with hepoch | hepoch
    · obtain ⟨high, hhigh, hle⟩ := hinv.reserved epoch hepoch
      obtain ⟨high', hhigh', hle'⟩ := hchange.epoch_le hhigh
      exact ⟨high', hhigh', UInt64.le_trans hle hle'⟩
    · have hnew : e.acquired = some epoch := by simpa using hepoch
      exact ⟨epoch, (hacquired epoch hnew).1, UInt64.le_refl _⟩

end Steps

/-- Opening the repository again changes neither file. -/
theorem stored_of_reopened {root : Path} {resource : String} {s : Durable} {policy : LeasePolicy}
    {d t : Disk} (h : Stored root resource s d)
    (ht : t ∈ (FileLeaseRepository.openAt root policy).stops d) : Stored root resource s t := by
  have hdirs : ∀ p ∈ root.inits.tail, Prog.Keeps (Stored root resource s)
      (io "lease root create failed" (Storage.ensureDir p)) := by
    intro p hp
    have hinit : p <+: root := (List.mem_inits _ _).1 (List.mem_of_mem_tail hp)
    have hne (c : String) : root ++ [c] ≠ p := by
      rintro rfl
      have hle := hinit.length_le
      rw [List.length_append, List.length_singleton] at hle
      omega
    intro u hu
    refine wp_io (fun v hv => ?_) fun _ => hu
    have hv : Stored root resource s v := by
      unfold Storage.ensureDir at hv
      split at hv
      · obtain rfl := Except.ok.inj hv
        exact hu
      · simp at hv
      · have hget := (Disk.get_createDir hv).2
        refine hu.of_get ?_ ?_
        · rw [hget, leaseFile, if_neg (hne _)]
        · rw [hget, epochFile, if_neg (hne _)]
      · simp at hv
    exact ⟨hv, hv⟩
  have hkeeps : Prog.Keeps (Stored root resource s) (FileLeaseRepository.openAt root policy) := by
    unfold FileLeaseRepository.openAt
    split
    · exact Prog.keeps_fail _
    · exact Prog.keeps_bind (Prog.keeps_read _) fun _ => Prog.keeps_bind
        (Prog.keeps_each _ hdirs) fun _ => Prog.keeps_bind (Prog.keeps_read _) fun _ =>
          Prog.keeps_read _
  exact hkeeps.stops h ht

theorem inv_run {root : Path} {resource : String} {start d : Disk} {events : List Event}
    (hlease : start.get (leaseFile root resource) = none)
    (hepoch : start.get (epochFile root resource) = none)
    (h : Run root resource start events d) :
    ∃ s, Stored root resource s d ∧ Inv root resource events s := by
  induction h with
  | start => exact ⟨⟨none, none⟩, ⟨hlease, hepoch, by simp⟩, by simp, by simp, by simp⟩
  | call h he ih =>
    obtain ⟨s, hs, hinv⟩ := ih
    exact inv_step he hs hinv
  | reopened h hstop ih =>
    obtain ⟨s, hs, hinv⟩ := ih
    exact ⟨s, stored_of_reopened hs hstop, hinv⟩

section Fence

variable {repository : FileLeaseRepository} {s : Durable} {d : Disk} {token : LeaseToken}
  {nowMs : UInt64}

/-- A token that passes is the one of the lease, which has not expired. -/
theorem lease_of_allowed (h : Stored repository.root token.resource s d)
    (hallowed : (repository.checkFence token nowMs).result d = .ok .allowed) :
    ∃ lease, s.lease = some lease ∧ lease.token = token ∧
      lease.isExpired nowMs repository.policy = false := by
  have hwp : (repository.checkFence token nowMs).wp (fun _ => True) (fun r _ => r = .ok .allowed →
      ∃ lease, s.lease = some lease ∧ lease.token = token ∧
        lease.isExpired nowMs repository.policy = false) d := by
    refine wp_withLock h (fun _ _ => trivial) (fun _ _ _ => by simp) fun hvalid t ht hroot => ?_
    rw [Prog.wp_read, FileLeaseRepository.decision, readState_stored ht hvalid hroot, ok_bind]
    cases hlease : s.lease with
    | none => simp
    | some lease =>
      dsimp only
      split
      · simp
      rename_i hexpired
      split
      · simp
      rename_i howner
      split
      · simp
      rename_i hepoch
      refine fun _ => ⟨lease, rfl, ?_, Bool.eq_false_iff.2 hexpired⟩
      exact LeaseToken.ext (ht.resource lease hlease) (not_not.1 howner) (not_not.1 hepoch)
  exact hwp.2 hallowed

theorem wp_acquire_held {resource : String} {owner : LeaseOwner} {lease : SharedResourceLease}
    (h : Stored repository.root resource s d) (hlease : s.lease = some lease)
    (hexpired : lease.isExpired nowMs repository.policy = false) (howner : lease.token.owner ≠ owner)
    (epochTemp stateTemp : TempName) :
    (repository.acquire epochTemp stateTemp resource owner nowMs).wp
      (Stored repository.root resource s)
      (fun r t => (∃ e, r = .error e) ∧ Stored repository.root resource s t) d := by
  refine wp_withLock h (fun t ht => ht) (fun e t ht => ⟨⟨e, rfl⟩, ht⟩) fun hvalid t ht hroot => ?_
  have hheld : s.next repository.policy resource owner nowMs =
      .error (.initialization "shared resource lease is held by another owner") := by
    rw [Durable.next, if_pos]
    simp [hlease, hexpired, howner]
  rw [Prog.wp_read_bind, nextLease_stored ht hvalid hroot, hheld]
  exact ⟨fun lease hok => by simp at hok, fun e _ => ⟨⟨e, rfl⟩, ht⟩⟩

end Fence

/-- **Mutual exclusion and fencing.** In every run on a resource without files, wherever calls are
stopped and whatever the clocks say: the epochs handed out increase; a token that passes the fence
is the one of the last lease that was written, and it was not released; and as long as it passes,
an `acquire` of another owner fails and changes neither file. -/
theorem lease_fencing {root : Path} {resource : String} {start d : Disk} {events : List Event}
    (hlease : start.get (leaseFile root resource) = none)
    (hepoch : start.get (epochFile root resource) = none)
    (h : Run root resource start events d) :
    (events.filterMap Event.acquired).Pairwise (· < ·) ∧
    ∀ (repository : FileLeaseRepository) (token : LeaseToken) (nowMs : UInt64),
      repository.root = root → token.resource = resource →
      (repository.checkFence token nowMs).result d = .ok .allowed →
      Outstanding root resource events token ∧
      ∀ (epochTemp stateTemp : TempName) (owner : LeaseOwner), owner ≠ token.owner →
        (∃ e, (repository.acquire epochTemp stateTemp resource owner nowMs).result d = .error e) ∧
        ∀ t ∈ (repository.acquire epochTemp stateTemp resource owner nowMs).stops d,
          t.get (leaseFile root resource) = d.get (leaseFile root resource) ∧
          t.get (epochFile root resource) = d.get (epochFile root resource) := by
  obtain ⟨s, hs, hinv⟩ := inv_run hlease hepoch h
  refine ⟨hinv.increasing, ?_⟩
  rintro repository token nowMs rfl rfl hallowed
  obtain ⟨lease, hcurrent, rfl, hexpired⟩ := lease_of_allowed hs hallowed
  refine ⟨hinv.outstanding lease hcurrent, fun epochTemp stateTemp owner howner => ?_⟩
  obtain ⟨hstops, hresult, -⟩ :=
    wp_acquire_held hs hcurrent hexpired (Ne.symm howner) epochTemp stateTemp
  refine ⟨hresult, fun t ht => ?_⟩
  have hsame : Stored repository.root lease.token.resource s t := by
    rcases List.mem_cons.1 ht with rfl | ht
    · exact hs
    · exact hstops t ht
  exact ⟨hs.get_eq hsame rfl, hsame.epoch.trans hs.epoch.symm⟩

/-! ## A run with a crash -/

/-- A repository at the root of the disk. -/
def sampleRepository : FileLeaseRepository := ⟨[], ⟨45, 10, 0⟩, by decide⟩

def sampleOwner : LeaseOwner := ⟨"owner-a", by decide⟩

/-- A request to acquire, with two temporary files of its own. -/
def sampleRequest (counter : UInt64) : Request :=
  .acquire ⟨7, counter⟩ ⟨7, counter + 1⟩ "resource-a" sampleOwner 100

/-- A call that is stopped between the epoch and the lease. -/
def stoppedCall : Event :=
  ⟨sampleRepository, sampleRequest 0, none, Disk.empty,
    ((sampleRepository.perform (sampleRequest 0)).stops Disk.empty).getD 4 Disk.empty⟩

def returnedCall : Event :=
  ⟨sampleRepository, sampleRequest 2,
    some ((sampleRepository.perform (sampleRequest 2)).result stoppedCall.after), stoppedCall.after,
    (sampleRepository.perform (sampleRequest 2)).final stoppedCall.after⟩

theorem run_sample :
    Run [] "resource-a" Disk.empty [stoppedCall, returnedCall] returnedCall.after := by
  have hlength : 4 < ((sampleRepository.perform (sampleRequest 0)).stops Disk.empty).length := by
    decide
  have hstop : stoppedCall.after ∈
      (sampleRepository.perform (sampleRequest 0)).stops Disk.empty := by
    rw [stoppedCall, List.getD_eq_getElem _ _ hlength]
    exact List.getElem_mem hlength
  have hstopped : Happens [] "resource-a" stoppedCall := .stopped rfl rfl hstop
  have hreturned : Happens [] "resource-a" returnedCall := .returned stoppedCall.after rfl rfl
  exact .call (.call .start hstopped) hreturned

theorem lease_fencing_sample :
    [stoppedCall, returnedCall].filterMap Event.acquired = [2] ∧
    (sampleRepository.checkFence ⟨"resource-a", sampleOwner, 2⟩ 110).result returnedCall.after =
      .ok .allowed ∧
    Outstanding [] "resource-a" [stoppedCall, returnedCall] ⟨"resource-a", sampleOwner, 2⟩ := by
  have hallowed : (sampleRepository.checkFence ⟨"resource-a", sampleOwner, 2⟩ 110).result
      returnedCall.after = .ok .allowed := by
    decide +kernel
  exact ⟨by decide, hallowed,
    ((lease_fencing rfl rfl run_sample).2 sampleRepository _ 110 rfl rfl hallowed).1⟩

end AppCore.Lease
