import AppCore.Lease.Repository

/-!
# What the repository makes durable

The two files of a resource hold a `Durable` state: the lease, when there is one, and the epoch that
was given out last. `Stored` says that a disk holds it. Each operation is a few changes of that
state (`Change`), whether it returns, fails or is stopped:

* `wp_perform` — the one statement about the programs; what follows is about durable states only.
-/

namespace AppCore.Lease

/-! ## Durable states -/

/-- The lease and the epoch of one resource. -/
structure Durable where
  lease : Option SharedResourceLease
  epoch : Option UInt64

def leaseFile (root : Path) (resource : String) : Path := root ++ [resource ++ ".lease"]

def epochFile (root : Path) (resource : String) : Path := root ++ [resource ++ ".epoch"]

/-- A disk with this durable state of a resource. -/
structure Stored (root : Path) (resource : String) (s : Durable) (d : Disk) : Prop where
  lease : d.get (leaseFile root resource) =
    s.lease.map fun lease => .file (utf8 (stateText lease))
  epoch : d.get (epochFile root resource) =
    s.epoch.map fun epoch => .file (utf8 (epochText epoch))
  resource : ∀ lease, s.lease = some lease → lease.token.resource = resource

/-- A resource whose files can be named. -/
def ValidResource (resource : String) : Prop := validateLabel "lease resource" resource = .ok ()

/-- A label with an extension is a name. -/
theorem isName_of_validResource {resource suffix : String} (h : ValidResource resource)
    (hlong : 2 < suffix.toList.length) (hslash : '/' ∉ suffix.toList)
    (hnul : Char.ofNat 0 ∉ suffix.toList) : isName (resource ++ suffix) = true := by
  have hslash' : '/' ∉ resource.toList := not_mem_of_validateLabel h (by decide) (by decide)
  have hnul' : Char.ofNat 0 ∉ resource.toList := not_mem_of_validateLabel h (by decide) (by decide)
  have hlength : 2 < (resource ++ suffix).toList.length := by
    rw [String.toList_append, List.length_append]
    omega
  refine isName_iff.2 ⟨?_, ?_, ?_, ?_, ?_⟩
  · intro hempty
    simp [hempty] at hlength
  · intro hdot
    simp [hdot] at hlength
  · intro hdots
    simp [hdots] at hlength
  · simp [hslash, hslash']
  · simp [hnul, hnul']

theorem isName_lease {resource : String} (h : ValidResource resource) :
    isName (resource ++ ".lease") = true :=
  isName_of_validResource h (by decide) (by decide) (by decide)

theorem isName_epoch {resource : String} (h : ValidResource resource) :
    isName (resource ++ ".epoch") = true :=
  isName_of_validResource h (by decide) (by decide) (by decide)

theorem append_ne {resource a b : String} (h : a.toList ≠ b.toList) :
    resource ++ a ≠ resource ++ b := by
  intro heq
  have hlist := congrArg String.toList heq
  rw [String.toList_append, String.toList_append] at hlist
  exact h (List.append_cancel_left hlist)

theorem name_ne_append {temp : TempName} {resource suffix : String}
    (h : suffix.toList.getLast? ≠ some 'p') (hne : suffix.toList ≠ []) :
    resource ++ suffix ≠ temp.name := by
  intro heq
  have hlast := congrArg (fun name => name.toList.getLast?) heq
  simp only [TempName.name, String.toList_append, List.getLast?_append] at hlast
  have htmp : ".tmp".toList.getLast? = some 'p' := by decide
  rw [htmp, Option.some_or, Option.or_eq_left_of_isSome] at hlast
  · exact h hlast
  · simpa using hne

section Reading

variable {root : Path} {resource : String} {s : Durable} {d : Disk}

theorem readState_stored (h : Stored root resource s d) (hresource : ValidResource resource)
    (hroot : d.get root = some .dir) :
    readState (leaseFile root resource) resource d = .ok s.lease := by
  have hget := h.lease
  cases hlease : s.lease with
  | none =>
    rw [hlease] at hget
    rw [readState, leaseFile, readOptionalBounded_missing hroot (isName_lease hresource) hget,
      ok_bind]
  | some lease =>
    rw [hlease] at hget
    have heq := h.resource lease hlease
    have hsize := @length_stateText lease (heq ▸ length_of_validateLabel hresource)
    have hparse := @parseState_stateText lease (heq ▸ oneLine_of_validateLabel hresource)
    rw [readState, leaseFile, readOptionalBounded_file hroot (isName_lease hresource) hget hsize,
      ok_bind, ← heq]
    dsimp only
    rw [hparse]
    rfl

theorem readEpoch_stored (h : Stored root resource s d) (hresource : ValidResource resource)
    (hroot : d.get root = some .dir) :
    readEpoch (epochFile root resource) d = .ok s.epoch := by
  have hget := h.epoch
  cases hepoch : s.epoch with
  | none =>
    rw [hepoch] at hget
    rw [readEpoch, epochFile, readOptionalBounded_missing hroot (isName_epoch hresource) hget,
      ok_bind]
  | some epoch =>
    rw [hepoch] at hget
    rw [readEpoch, epochFile, readOptionalBounded_file hroot (isName_epoch hresource) hget
      (length_epochText epoch), ok_bind]
    dsimp only
    rw [parseEpoch_epochText]
    rfl

end Reading

/-! ## Replacing a file -/

/-- Nothing in the directory changed but the temporary file. -/
def Untouched (root : Path) (temp : TempName) (d t : Disk) : Prop :=
  ∀ c, c ≠ temp.name → t.get (root ++ [c]) = d.get (root ++ [c])

/-- One file was replaced. -/
def Replaced (root : Path) (temp : TempName) (name : String) (bytes : Bytes) (d t : Disk) : Prop :=
  ∀ c, c ≠ temp.name →
    t.get (root ++ [c]) = if c = name then some (.file bytes) else d.get (root ++ [c])

theorem concat_ne {root : Path} {a b : String} (h : a ≠ b) : root ++ [a] ≠ root ++ [b] := by
  simpa using h

theorem not_prefix_concat {root : Path} {a b : String} (h : a ≠ b) :
    ¬ root ++ [a] <+: root ++ [b] := by
  simpa using h

/-- A replaced file is the old one or the new one, at every moment; the call returns without an
error only after the new one is there. -/
theorem wp_atomicReplace {root : Path} {temp : TempName} {name : String} {bytes : Bytes} {d : Disk}
    (hname : name ≠ temp.name) :
    (atomicReplace temp (root ++ [name]) bytes).wp
      (fun t => Untouched root temp d t ∨ Replaced root temp name bytes d t)
      (fun r t => (r = .ok () → Replaced root temp name bytes d t) ∧
        (Untouched root temp d t ∨ Replaced root temp name bytes d t)) d := by
  have hpath : temp.path (root ++ [name]) = root ++ [temp.name] := by
    rw [TempName.path, List.dropLast_concat]
  have hsame : Untouched root temp d d := fun _ _ => rfl
  have hwrite : (writeAndRename (root ++ [temp.name]) (root ++ [name]) bytes).wp
      (fun t => Untouched root temp d t ∨ Replaced root temp name bytes d t)
      (fun r t => (r = .ok () → Replaced root temp name bytes d t) ∧
        (Untouched root temp d t ∨ Replaced root temp name bytes d t)) d := by
    rw [writeAndRename, Prog.wp_read_bind]
    refine ⟨fun _ _ => ?_, fun e _ => ⟨by simp, .inl hsame⟩⟩
    refine wp_io_bind (fun t hcreate => ?_) fun e => ⟨by simp, .inl hsame⟩
    have ht : Untouched root temp d t := fun c hc => by
      rw [(Disk.get_createNew hcreate).2, if_neg (concat_ne hc)]
    refine ⟨.inl ht, wp_io_bind (fun u hwrite => ?_) fun e => ⟨by simp, .inl ht⟩⟩
    have hu : Untouched root temp d u := fun c hc => by
      rw [Disk.get_writeAll hwrite, if_neg (concat_ne hc), ht c hc]
    refine ⟨.inl hu, wp_io_bind (fun v hrename => ?_) fun e => ⟨by simp, .inl hu⟩⟩
    have hv : Replaced root temp name bytes d v := by
      intro c hc
      rw [(Disk.get_rename hrename (concat_ne hname.symm)).2]
      by_cases hcn : c = name
      · rw [if_pos hcn, hcn, if_pos (List.prefix_refl _), List.drop_length, List.append_nil,
          Disk.get_writeAll hwrite, if_pos rfl]
      · rw [if_neg hcn, if_neg (not_prefix_concat (Ne.symm hcn)),
          if_neg (not_prefix_concat (Ne.symm hc)), hu c hc]
    refine ⟨.inr hv, ?_⟩
    rw [Prog.wp_read]
    exact ⟨fun _ => hv, .inr hv⟩
  rw [atomicReplace, hpath, Prog.wp_bind, Prog.wp_attempt]
  refine Prog.wp_mono hwrite (fun t h => h) ?_
  rintro (e | ⟨⟩) t ⟨hok, h⟩
  · -- the temporary file is removed, when it is there
    have hremoved {u : Disk} (hremove : t.remove (root ++ [temp.name]) = .ok u) :
        Untouched root temp d u ∨ Replaced root temp name bytes d u := by
      have hget (c : String) (hc : c ≠ temp.name) : u.get (root ++ [c]) = t.get (root ++ [c]) := by
        rw [Disk.get_remove hremove, if_neg (concat_ne hc)]
      exact h.imp (fun h c hc => (hget c hc).trans (h c hc)) fun h c hc =>
        (hget c hc).trans (h c hc)
    dsimp only
    rw [Prog.wp_bind, Prog.wp_attempt]
    refine wp_io (fun u hremove => ⟨hremoved hremove, ?_⟩) fun e' => ?_
    · rw [Prog.wp_fail]
      exact ⟨by simp, hremoved hremove⟩
    · rw [Prog.wp_fail]
      exact ⟨by simp, h⟩
  · dsimp only
    rw [Prog.wp_pure]
    exact ⟨hok, h⟩

/-! ## Changes of the durable state -/

section Changes

variable {root : Path} {resource : String} {s : Durable} {d t : Disk} {temp : TempName}

theorem Stored.of_get (h : Stored root resource s d)
    (hlease : t.get (leaseFile root resource) = d.get (leaseFile root resource))
    (hepoch : t.get (epochFile root resource) = d.get (epochFile root resource)) :
    Stored root resource s t :=
  ⟨hlease.trans h.lease, hepoch.trans h.epoch, h.resource⟩

theorem lease_ne_name : resource ++ ".lease" ≠ temp.name := name_ne_append (by decide) (by decide)

theorem epoch_ne_name : resource ++ ".epoch" ≠ temp.name := name_ne_append (by decide) (by decide)

theorem lease_ne_epoch : resource ++ ".lease" ≠ resource ++ ".epoch" := append_ne (by decide)

theorem Stored.untouched (h : Stored root resource s d) (ht : Untouched root temp d t) :
    Stored root resource s t :=
  h.of_get (ht _ lease_ne_name) (ht _ epoch_ne_name)

theorem Stored.replaceLease (h : Stored root resource s d) {lease : SharedResourceLease}
    (hresource : lease.token.resource = resource)
    (ht : Replaced root temp (resource ++ ".lease") (utf8 (stateText lease)) d t) :
    Stored root resource { s with lease := some lease } t where
  lease := (ht _ lease_ne_name).trans (if_pos rfl)
  epoch := ((ht _ epoch_ne_name).trans (if_neg lease_ne_epoch.symm)).trans h.epoch
  resource := by
    rintro other heq
    rwa [← Option.some.inj heq]

theorem Stored.replaceEpoch (h : Stored root resource s d) {epoch : UInt64}
    (ht : Replaced root temp (resource ++ ".epoch") (utf8 (epochText epoch)) d t) :
    Stored root resource { s with epoch := some epoch } t where
  lease := ((ht _ lease_ne_name).trans (if_neg lease_ne_epoch)).trans h.lease
  epoch := (ht _ epoch_ne_name).trans (if_pos rfl)
  resource := h.resource

theorem wp_writeState (h : Stored root resource s d) {lease : SharedResourceLease}
    (hresource : lease.token.resource = resource) :
    (writeState temp (leaseFile root resource) lease).wp
      (fun t => Stored root resource s t ∨ Stored root resource { s with lease := some lease } t)
      (fun r t => (r = .ok () → Stored root resource { s with lease := some lease } t) ∧
        (Stored root resource s t ∨ Stored root resource { s with lease := some lease } t)) d :=
  Prog.wp_mono (wp_atomicReplace lease_ne_name)
    (fun _ ht => ht.imp h.untouched (h.replaceLease hresource))
    fun _ _ ht => ⟨fun hr => h.replaceLease hresource (ht.1 hr),
      ht.2.imp h.untouched (h.replaceLease hresource)⟩

theorem wp_writeEpoch (h : Stored root resource s d) {epoch : UInt64} :
    (writeEpoch temp (epochFile root resource) epoch).wp
      (fun t => Stored root resource s t ∨ Stored root resource { s with epoch := some epoch } t)
      (fun r t => (r = .ok () → Stored root resource { s with epoch := some epoch } t) ∧
        (Stored root resource s t ∨ Stored root resource { s with epoch := some epoch } t)) d :=
  Prog.wp_mono (wp_atomicReplace epoch_ne_name)
    (fun _ ht => ht.imp h.untouched h.replaceEpoch)
    fun _ _ ht => ⟨fun hr => h.replaceEpoch (ht.1 hr), ht.2.imp h.untouched h.replaceEpoch⟩

theorem wp_removeState (h : Stored root resource s d) :
    (removeState (leaseFile root resource)).wp
      (fun t => Stored root resource { s with lease := none } t)
      (fun _ t => Stored root resource s t ∨ Stored root resource { s with lease := none } t) d := by
  rw [removeState, Prog.wp_read_bind]
  refine ⟨fun _ _ => wp_io_bind (fun t hremove => ?_) fun e => .inl h, fun e _ => .inl h⟩
  have ht : Stored root resource { s with lease := none } t := by
    refine ⟨?_, ?_, by simp⟩
    · rw [Disk.get_remove hremove, if_pos rfl]
      rfl
    · rw [Disk.get_remove hremove, epochFile, leaseFile, if_neg (concat_ne lease_ne_epoch.symm)]
      exact h.epoch
  refine ⟨ht, ?_⟩
  rw [Prog.wp_read]
  exact .inr ht

end Changes

/-! ## Operations -/

section Operations

variable {repository : FileLeaseRepository} {resource : String} {s : Durable} {d : Disk}

theorem epochPath_eq (h : ValidResource resource) :
    repository.epochPath resource = .ok (epochFile repository.root resource) := by
  rw [FileLeaseRepository.epochPath, resourceFile, h]
  rfl

/-- An operation under the lock runs on the files as they were, in a directory that is there. -/
theorem wp_withLock {α : Type} {operation : Path → LeaseProg α} {C : Disk → Prop}
    {Q : ProviderResult α → Disk → Prop} (hd : Stored repository.root resource s d)
    (hC : ∀ t, Stored repository.root resource s t → C t)
    (herror : ∀ e t, Stored repository.root resource s t → Q (.error e) t)
    (hoperation : ValidResource resource → ∀ t, Stored repository.root resource s t →
      t.get repository.root = some .dir →
      (operation (leaseFile repository.root resource)).wp C Q t) :
    (repository.withLock resource operation).wp C Q d := by
  rw [FileLeaseRepository.withLock, Prog.wp_read_bind]
  refine ⟨fun _ _ => ?_, fun e _ => herror e d hd⟩
  rw [Prog.wp_read_bind]
  refine ⟨fun lockPath hlock => ?_, fun e _ => herror e d hd⟩
  have hvalid : ValidResource resource := by
    unfold FileLeaseRepository.lockPath resourceFile at hlock
    unfold ValidResource
    cases h : validateLabel "lease resource" resource with
    | error e => simp [h, Except.map] at hlock
    | ok _ => rfl
  have hlockPath : lockPath = repository.root ++ [resource ++ ".lock"] := by
    unfold FileLeaseRepository.lockPath resourceFile at hlock
    rw [hvalid] at hlock
    exact (Except.ok.inj hlock).symm
  rw [Prog.wp_read_bind]
  refine ⟨fun _ _ => wp_io_bind (fun t hopen => ?_) fun e => herror e d hd,
    fun e _ => herror e d hd⟩
  obtain ⟨⟨content, hfile⟩, hother, -⟩ := Disk.get_openCreate hopen
  rw [hlockPath] at hfile hother
  have ht : Stored repository.root resource s t :=
    hd.of_get (hother _ (concat_ne (append_ne (by decide))))
      (hother _ (concat_ne (append_ne (by decide))))
  have hroot : t.get repository.root = some .dir := Disk.get_of_append hfile
  have hstate : repository.statePath resource = .ok (leaseFile repository.root resource) := by
    rw [FileLeaseRepository.statePath, resourceFile, hvalid]
    rfl
  refine ⟨hC t ht, ?_⟩
  rw [Prog.wp_read_bind]
  refine ⟨fun path hpath => ?_, fun e _ => herror e t ht⟩
  rw [hstate] at hpath
  obtain rfl := Except.ok.inj hpath
  exact hoperation hvalid t ht hroot

/-- What `acquire` grants on a durable state. -/
def Durable.next (s : Durable) (policy : LeasePolicy) (resource : String) (owner : LeaseOwner)
    (nowMs : UInt64) : ProviderResult SharedResourceLease :=
  if s.lease.any fun current =>
      !current.isExpired nowMs policy && current.token.owner != owner then
    .error (.initialization "shared resource lease is held by another owner")
  else match checkedAdd ((s.epoch.toList ++ (s.lease.map (·.token.epoch)).toList).max?.getD 0) 1 with
    | none => .error (.initialization "shared resource fencing epoch exhausted")
    | some nextEpoch => do
        let expiresAtMs ← leaseExpiration nowMs policy.ttlMs
        .ok ⟨⟨resource, owner, nextEpoch⟩, nowMs, nowMs, expiresAtMs⟩

theorem presentLease_stored (h : Stored repository.root resource s d)
    (hresource : ValidResource resource) (hroot : d.get repository.root = some .dir)
    {current : SharedResourceLease}
    (hcurrent : FileLeaseRepository.presentLease resource (leaseFile repository.root resource) d =
      .ok current) : s.lease = some current := by
  rw [FileLeaseRepository.presentLease, readState_stored h hresource hroot, ok_bind] at hcurrent
  cases hlease : s.lease with
  | none => simp [hlease] at hcurrent
  | some lease => simpa [hlease] using hcurrent

theorem nextLease_stored (h : Stored repository.root resource s d)
    (hresource : ValidResource resource) (hroot : d.get repository.root = some .dir)
    (owner : LeaseOwner) (nowMs : UInt64) :
    repository.nextLease resource owner nowMs (leaseFile repository.root resource) d =
      s.next repository.policy resource owner nowMs := by
  rewrite [FileLeaseRepository.nextLease, readState_stored h hresource hroot, ok_bind, Durable.next,
    epochPath_eq hresource, ok_bind, readEpoch_stored h hresource hroot, ok_bind]
  rfl

/-- The highest of two epochs that may be there. -/
theorem le_highest {a b : Option UInt64} {epoch : UInt64} (h : epoch ∈ a.toList ++ b.toList) :
    epoch ≤ (a.toList ++ b.toList).max?.getD 0 := by
  have hmax (x y : UInt64) : max x y = if x ≤ y then y else x := rfl
  cases a with
  | none =>
    cases b with
    | none => simp at h
    | some y => simp_all
  | some x =>
    cases b with
    | none => simp_all
    | some y =>
      simp only [Option.toList_some, List.cons_append, List.nil_append, List.mem_cons,
        List.not_mem_nil, or_false] at h
      simp only [Option.toList_some, List.cons_append, List.nil_append, List.max?_cons',
        List.foldl_cons, List.foldl_nil, Option.getD_some, hmax]
      rcases h with rfl | rfl
      · split
        · assumption
        · exact UInt64.le_refl _
      · split
        · exact UInt64.le_refl _
        · rename_i hle
          exact (UInt64.le_total _ _).resolve_right hle

/-- A granted lease has an epoch of its own, above all that was written. -/
theorem next_spec {policy : LeasePolicy} {owner : LeaseOwner} {nowMs : UInt64}
    {lease : SharedResourceLease} (h : s.next policy resource owner nowMs = .ok lease) :
    lease.token.resource = resource ∧ (∀ epoch, s.epoch = some epoch → epoch < lease.token.epoch) ∧
      ∀ current, s.lease = some current → current.token.epoch < lease.token.epoch := by
  unfold Durable.next at h
  split at h
  · simp at h
  split at h
  · simp at h
  rename_i nextEpoch hnext
  obtain ⟨expiresAtMs, -, h⟩ := bind_eq_ok.1 h
  obtain rfl := Except.ok.inj h
  have hbelow {epoch : UInt64}
      (hmem : epoch ∈ s.epoch.toList ++ (s.lease.map (·.token.epoch)).toList) :
      epoch < nextEpoch := by
    obtain ⟨-, hsum⟩ := checkedAdd_eq_some.1 hnext
    have hle := le_highest hmem
    rw [UInt64.le_iff_toNat_le] at hle
    rw [UInt64.lt_iff_toNat_lt, hsum]
    exact Nat.lt_succ_of_le hle
  refine ⟨rfl, fun epoch hepoch => hbelow ?_, fun current hcurrent => hbelow ?_⟩
  · simp [hepoch]
  · simp [hcurrent]

/-- The durable states a request can leave, from one state. -/
inductive Change (policy : LeasePolicy) (s : Durable) : Request → Durable → Prop where
  | kept (request : Request) : Change policy s request s
  | reserved {epochTemp stateTemp : TempName} {resource : String} {owner : LeaseOwner}
      {nowMs : UInt64} {lease : SharedResourceLease}
      (h : s.next policy resource owner nowMs = .ok lease) :
      Change policy s (.acquire epochTemp stateTemp resource owner nowMs)
        { s with epoch := some lease.token.epoch }
  | placed {epochTemp stateTemp : TempName} {resource : String} {owner : LeaseOwner}
      {nowMs : UInt64} {lease : SharedResourceLease} (hvalid : ValidResource resource)
      (h : s.next policy resource owner nowMs = .ok lease) :
      Change policy s (.acquire epochTemp stateTemp resource owner nowMs)
        ⟨some lease, some lease.token.epoch⟩
  | renewed {stateTemp : TempName} {beat : LeaseHeartbeat} {old new : SharedResourceLease}
      (h : s.lease = some old) (htoken : new.token = old.token) :
      Change policy s (.heartbeat stateTemp beat) { s with lease := some new }
  | released {token : LeaseToken} {old : SharedResourceLease} (h : s.lease = some old)
      (htoken : old.token = token) : Change policy s (.release token) { s with lease := none }

/-- A disk a request can leave. -/
def Leaves (repository : FileLeaseRepository) (s : Durable) (request : Request) (t : Disk) : Prop :=
  ∃ s', Stored repository.root request.resource s' t ∧ Change repository.policy s request s'

theorem leaves_kept {request : Request} {t : Disk}
    (h : Stored repository.root request.resource s t) : Leaves repository s request t :=
  ⟨s, h, .kept request⟩

theorem wp_acquire {epochTemp stateTemp : TempName} {owner : LeaseOwner} {nowMs : UInt64}
    (h : Stored repository.root resource s d) :
    (repository.acquire epochTemp stateTemp resource owner nowMs).wp
      (Leaves repository s (.acquire epochTemp stateTemp resource owner nowMs))
      (fun r t => Leaves repository s (.acquire epochTemp stateTemp resource owner nowMs) t ∧
        ∀ lease, r = .ok lease → ValidResource resource ∧
          s.next repository.policy resource owner nowMs = .ok lease ∧
          Stored repository.root resource ⟨some lease, some lease.token.epoch⟩ t) d := by
  refine wp_withLock h (fun t ht => leaves_kept ht) (fun e t ht => ⟨leaves_kept ht, by simp⟩)
    fun hvalid t ht hroot => ?_
  rw [Prog.wp_read_bind, nextLease_stored ht hvalid hroot]
  refine ⟨fun lease hnext => ?_, fun e _ => ⟨leaves_kept ht, by simp⟩⟩
  have hresource := (next_spec hnext).1
  rw [Prog.wp_read_bind, epochPath_eq hvalid]
  refine ⟨fun path hpath => ?_, fun e he => by simp at he⟩
  obtain rfl := Except.ok.inj hpath
  have hleaves {u : Disk} (hu : Stored repository.root resource s u ∨
      Stored repository.root resource { s with epoch := some lease.token.epoch } u) :
      Leaves repository s (.acquire epochTemp stateTemp resource owner nowMs) u := by
    rcases hu with hu | hu
    · exact leaves_kept hu
    · exact ⟨_, hu, .reserved hnext⟩
  rw [Prog.wp_bind]
  refine Prog.wp_mono (wp_writeEpoch ht) (fun u hu => hleaves hu) ?_
  rintro (e | ⟨⟩) u ⟨hok, hu⟩
  · exact ⟨hleaves hu, by simp⟩
  -- the epoch is written, and the lease follows
  have hu := hok rfl
  have hleaves' {v : Disk} (hv : Stored repository.root resource
        { s with epoch := some lease.token.epoch } v ∨
      Stored repository.root resource ⟨some lease, some lease.token.epoch⟩ v) :
      Leaves repository s (.acquire epochTemp stateTemp resource owner nowMs) v := by
    rcases hv with hv | hv
    · exact hleaves (.inr hv)
    · exact ⟨_, hv, .placed hvalid hnext⟩
  dsimp only
  rw [Prog.wp_bind]
  refine Prog.wp_mono (wp_writeState hu hresource) (fun v hv => hleaves' hv) ?_
  rintro (e | ⟨⟩) v ⟨hok, hv⟩
  · exact ⟨hleaves' hv, by simp⟩
  · dsimp only
    rw [Prog.wp_pure]
    refine ⟨hleaves' hv, fun other hother => ?_⟩
    obtain rfl := Except.ok.inj hother
    exact ⟨hvalid, hnext, hok rfl⟩

theorem wp_heartbeat {stateTemp : TempName} {beat : LeaseHeartbeat}
    (h : Stored repository.root beat.token.resource s d) :
    (repository.heartbeat stateTemp beat).wp
      (Leaves repository s (.heartbeat stateTemp beat))
      (fun _ t => Leaves repository s (.heartbeat stateTemp beat) t) d := by
  refine wp_withLock h (fun t ht => leaves_kept ht) (fun e t ht => leaves_kept ht)
    fun hvalid t ht hroot => ?_
  rw [Prog.wp_read_bind]
  refine ⟨fun new hnew => ?_, fun e _ => leaves_kept ht⟩
  obtain ⟨old, hold, htoken⟩ : ∃ old, s.lease = some old ∧ new.token = old.token := by
    obtain ⟨current, hcurrent, hnew⟩ := bind_eq_ok.1 hnew
    obtain ⟨_, -, hnew⟩ := bind_eq_ok.1 hnew
    split at hnew
    · simp at hnew
    obtain ⟨expiresAtMs, -, hnew⟩ := bind_eq_ok.1 hnew
    obtain rfl := Except.ok.inj hnew
    exact ⟨current, presentLease_stored ht hvalid hroot hcurrent, rfl⟩
  have hresource : new.token.resource = beat.token.resource := by
    rw [htoken]
    exact ht.resource old hold
  have hleaves {u : Disk} (hu : Stored repository.root beat.token.resource s u ∨
      Stored repository.root beat.token.resource { s with lease := some new } u) :
      Leaves repository s (.heartbeat stateTemp beat) u := by
    rcases hu with hu | hu
    · exact leaves_kept hu
    · exact ⟨_, hu, .renewed hold htoken⟩
  rw [Prog.wp_bind]
  refine Prog.wp_mono (wp_writeState ht hresource) (fun u hu => hleaves hu) ?_
  rintro (e | ⟨⟩) u ⟨-, hu⟩
  · exact hleaves hu
  · dsimp only
    rw [Prog.wp_pure]
    exact hleaves hu

theorem wp_release {token : LeaseToken} (h : Stored repository.root token.resource s d) :
    (repository.release token).wp (Leaves repository s (.release token))
      (fun _ t => Leaves repository s (.release token) t) d := by
  refine wp_withLock h (fun t ht => leaves_kept ht) (fun e t ht => leaves_kept ht)
    fun hvalid t ht hroot => ?_
  rw [Prog.wp_read_bind]
  refine ⟨fun _ hsame => ?_, fun e _ => leaves_kept ht⟩
  obtain ⟨old, hold, htoken⟩ : ∃ old, s.lease = some old ∧ old.token = token := by
    obtain ⟨current, hcurrent, hsame⟩ := bind_eq_ok.1 hsame
    unfold FileLeaseRepository.ensureSameToken at hsame
    split at hsame
    · simp at hsame
    rename_i heq
    exact ⟨current, presentLease_stored ht hvalid hroot hcurrent, not_not.1 heq⟩
  have hremoved {u : Disk}
      (hu : Stored repository.root token.resource { s with lease := none } u) :
      Leaves repository s (.release token) u := ⟨_, hu, .released hold htoken⟩
  exact Prog.wp_mono (wp_removeState ht) (fun u hu => hremoved hu)
    fun _ u hu => hu.elim (fun hu => leaves_kept hu) hremoved

theorem wp_look {α : Type} {request : Request} {look : Path → Disk → ProviderResult α}
    (h : Stored repository.root request.resource s d) :
    (repository.withLock request.resource fun statePath => Prog.read (look statePath)).wp
      (Leaves repository s request) (fun _ t => Leaves repository s request t) d := by
  refine wp_withLock h (fun t ht => leaves_kept ht) (fun e t ht => leaves_kept ht)
    fun _ t ht _ => ?_
  rw [Prog.wp_read]
  exact leaves_kept ht

theorem wp_wrap {α β : Type} {m : LeaseProg α} {f : α → β} {C : Disk → Prop}
    {Q : ProviderResult β → Disk → Prop}
    (h : m.wp C (fun r t => Q (r.map f) t) d) : Prog.wp (m >>= fun a => pure (f a)) C Q d := by
  rw [Prog.wp_bind]
  refine Prog.wp_mono h (fun _ ht => ht) ?_
  rintro (e | a) t ht
  · exact ht
  · dsimp only
    rw [Prog.wp_pure]
    exact ht

/-- **What a request does to the durable state**, when it returns and wherever it is stopped. -/
theorem wp_perform {request : Request} (h : Stored repository.root request.resource s d) :
    (repository.perform request).wp (Leaves repository s request)
      (fun _ t => Leaves repository s request t) d := by
  cases request with
  | acquire epochTemp stateTemp resource owner nowMs =>
    exact wp_wrap (Prog.wp_mono (wp_acquire h) (fun _ ht => ht) fun _ _ ht => ht.1)
  | heartbeat stateTemp beat => exact wp_wrap (wp_heartbeat h)
  | release token => exact wp_wrap (wp_release h)
  | current resource =>
    exact wp_wrap (@wp_look _ _ _ _ (.current resource) (fun path => readState path resource) h)
  | checkFence token nowMs =>
    exact wp_wrap (@wp_look _ _ _ _ (.checkFence token nowMs)
      (fun path => repository.decision token nowMs path) h)

end Operations

end AppCore.Lease
