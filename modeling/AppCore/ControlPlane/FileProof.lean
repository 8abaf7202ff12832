import AppCore.ControlPlane.File

/-!
# What the control plane makes durable

`durable` is the state that the next operation will load. An operation leaves it alone or replaces it
with what it computed from it, at every system call, whether it returns, fails or is stopped:

* `outcome_spec` — the one statement about the programs; what follows is about states only.
-/

namespace AppCore.ControlPlane

section Calls

variable {α : Type} {operation : String} {call : Disk → Except IoError Disk} {C : Disk → Prop}
  {d : Disk}

theorem wp_io {Q : ControlPlaneResult Unit → Disk → Prop}
    (hok : ∀ t, call d = .ok t → C t ∧ Q (.ok ()) t) (herror : ∀ e, Q (.error e) d) :
    (io operation call).wp C Q d :=
  Prog.wp_step_mapError hok fun _ _ => herror _

theorem wp_io_bind {g : Unit → ControlProg α} {Q : ControlPlaneResult α → Disk → Prop}
    (hok : ∀ t, call d = .ok t → C t ∧ (g ()).wp C Q t) (herror : ∀ e, Q (.error e) d) :
    Prog.wp (io operation call >>= g) C Q d := by
  rw [Prog.wp_bind]
  exact wp_io hok herror

end Calls

/-! ## A file that is replaced -/

theorem get_ensureDir {d t : Disk} {p q : Path} {n : Node} (h : Storage.ensureDir p d = .ok t)
    (hq : d.get q = some n) : t.get q = some n := by
  unfold Storage.ensureDir at h
  split at h
  · cases h
    exact hq
  · cases h
  · obtain ⟨hnone, hget⟩ := Disk.get_createDir h
    have hne : q ≠ p := by
      rintro rfl
      rw [hnone] at hq
      cases hq
    rw [hget, if_neg hne, hq]
  · cases h

/-- A file as it was, or the one at the path that is written. -/
def KeptOrWritten (q path : Path) (content bytes : Bytes) (d : Disk) : Prop :=
  d.get q = some (.file content) ∨ q = path ∧ d.get q = some (.file bytes)

theorem rename_self {d t : Disk} {p : Path} (h : d.rename p p = .ok t) : t = d := by
  unfold Disk.rename at h
  split at h
  · cases h
  · rw [if_pos rfl] at h
    cases h
    rfl

theorem wp_writeAndReplace {d : Disk} {temp path q : Path} {content bytes : Bytes}
    (hq : d.get q = some (.file content)) :
    (writeAndReplace temp path bytes).wp (KeptOrWritten q path content bytes)
      (fun r t => KeptOrWritten q path content bytes t ∧
        (r = .ok () → q = path → t.get q = some (.file bytes))) d := by
  rw [writeAndReplace]
  refine wp_io_bind (fun t hcreate => ?_) fun e => ⟨Or.inl hq, nofun⟩
  obtain ⟨hnone, hget⟩ := Disk.get_createNew hcreate
  have hqtemp : q ≠ temp := by
    rintro rfl
    rw [hnone] at hq
    cases hq
  have ht : t.get q = some (.file content) := by rw [hget, if_neg hqtemp, hq]
  refine ⟨Or.inl ht, wp_io_bind (fun u hwrite => ?_) fun e => ⟨Or.inl ht, nofun⟩⟩
  have hu : u.get q = some (.file content) := by
    rw [Disk.get_writeAll hwrite, if_neg hqtemp, ht]
  have htemp : u.get temp = some (.file bytes) := by rw [Disk.get_writeAll hwrite, if_pos rfl]
  refine ⟨Or.inl hu, wp_io_bind (fun v hrename => ?_) fun e => ⟨Or.inl hu, nofun⟩⟩
  have hwritten : q = path → v.get q = some (.file bytes) := by
    rintro rfl
    rw [(Disk.get_rename hrename (Ne.symm hqtemp)).2, if_pos (List.prefix_refl _), List.drop_length,
      List.append_nil, htemp]
  have hkept : KeptOrWritten q path content bytes v := by
    by_cases hpath : q = path
    · exact Or.inr ⟨hpath, hwritten hpath⟩
    · by_cases hsame : temp = path
      · rw [← hsame] at hrename
        rw [rename_self hrename]
        exact Or.inl hu
      · have hbelow : ¬ path <+: q := by
          rintro ⟨r, rfl⟩
          cases r with
          | nil => exact hpath (List.append_nil path)
          | cons c r => exact Disk.rename_replaces hrename htemp hsame (Disk.get_of_append hu)
        have hsrc : ¬ temp <+: q := by
          rintro ⟨r, rfl⟩
          rw [Disk.get_append_of_none hnone] at hq
          cases hq
        rw [KeptOrWritten, (Disk.get_rename hrename hsame).2, if_neg hbelow, if_neg hsrc]
        exact Or.inl hu
  refine ⟨hkept, ?_⟩
  rw [Prog.wp_read]
  exact ⟨hkept, fun _ => hwritten⟩

/-- A file is the old one or the one that is written, at every system call; the call returns without
an error only after the new one is there. -/
theorem wp_writeAtomic {d : Disk} {temp : TempName} {path q : Path} {content bytes : Bytes}
    (hq : d.get q = some (.file content)) (hqtemp : temp.path path ≠ q) :
    (writeAtomic temp path bytes).wp (KeptOrWritten q path content bytes)
      (fun r t => KeptOrWritten q path content bytes t ∧
        (r = .ok () → q = path → t.get q = some (.file bytes))) d := by
  have hparents : Prog.Keeps (fun t : Disk => t.get q = some (.file content))
      (Prog.each (fun p => io "control-plane parent create" (Storage.ensureDir p))
        path.dropLast.inits.tail) := by
    refine Prog.keeps_each _ fun p _ => ?_
    intro t ht
    exact wp_io (fun u hu => ⟨get_ensureDir hu ht, get_ensureDir hu ht⟩) fun _ => ht
  rw [writeAtomic, Prog.wp_bind]
  refine Prog.wp_mono (hparents d hq) (fun _ h => Or.inl h) ?_
  intro r t ht
  cases r with
  | error e => exact ⟨Or.inl ht, nofun⟩
  | ok u =>
    dsimp only
    rw [Prog.wp_bind, Prog.wp_attempt]
    refine Prog.wp_mono (wp_writeAndReplace ht) (fun _ h => h) ?_
    intro result u hu
    cases result with
    | ok value =>
      dsimp only
      rw [Prog.wp_pure]
      exact ⟨hu.1, fun _ => hu.2 rfl⟩
    | error e =>
      -- only the temporary file goes
      dsimp only
      rw [Prog.wp_bind, Prog.wp_attempt]
      have hremoved : ∀ v, u.remove (temp.path path) = .ok v →
          KeptOrWritten q path content bytes v := by
        intro v hv
        have hget : v.get q = u.get q := by
          rw [Disk.get_remove hv, if_neg hqtemp.symm]
        unfold KeptOrWritten
        rw [hget]
        exact hu.1
      refine wp_io (fun v hv => ⟨hremoved v hv, ?_⟩) fun _ => ?_
      · dsimp only
        rw [Prog.wp_fail]
        exact ⟨hremoved v hv, nofun⟩
      · dsimp only
        rw [Prog.wp_fail]
        exact ⟨hu.1, nofun⟩

/-! ## The durable state -/

theorem TempName.name_ne {temp : TempName} {name : String} {c : Char} {rest : List Char}
    (h : name.toList = c :: rest) (hc : c ≠ '.') : temp.name ≠ name := by
  intro heq
  have hlists := congrArg String.toList heq
  rw [h] at hlists
  unfold TempName.name at hlists
  simp only [String.toList_append, List.append_assoc] at hlists
  exact hc (List.cons.inj hlists).1.symm

namespace FileControlPlane

variable {control : FileControlPlane} {temp : TempName} {d t : Disk} {state : InMemoryState}

theorem path_ne_statePath (path : Path) : temp.path path ≠ control.statePath := by
  intro heq
  have hlast := congrArg List.getLast? heq
  rw [TempName.path, statePath, List.getLast?_concat, List.getLast?_concat, Option.some.injEq] at hlast
  exact @TempName.name_ne _ _ 'c' "ontrol-plane-state-v1.json".toList rfl (by decide) hlast

variable [StateJson]

def durable (control : FileControlPlane) (d : Disk) : Option InMemoryState :=
  (control.loadControl d).toOption

variable {path : Path}

omit [StateJson] in
theorem rejectSymlink_of_get {n : Node} (h : d.get path = some n) :
    rejectSymlink path d = .ok () := by
  rw [rejectSymlink, Disk.stat_of_get h]

variable {bytes : Bytes}

omit [StateJson] in
theorem readBounded_of_get {operation : String} (h : d.get path = some (.file bytes)) :
    readBounded path operation d =
      if bytes.length > maxControlPlaneStateBytes then
        .error (.rejected "control-plane state exceeds configured limit")
      else .ok bytes := by
  rw [readBounded, rejectSymlink_of_get h, ok_bind, Disk.readFile_eq_ok.2 h]

theorem loadEnvelope_of_get (h : d.get control.statePath = some (.file bytes)) :
    control.loadEnvelope d =
      if bytes.length > maxControlPlaneStateBytes then
        .error (.rejected "control-plane state exceeds configured limit")
      else decodeEnvelope bytes := by
  rw [loadEnvelope, rejectSymlink_of_get h, ok_bind, readBounded_of_get h]
  split
  · rfl
  · rw [ok_bind]

variable {envelope : StateEnvelope}

theorem file_of_loadEnvelope (h : control.loadEnvelope d = .ok envelope) :
    ∃ bytes, d.get control.statePath = some (.file bytes) := by
  unfold loadEnvelope readBounded at h
  obtain ⟨_, _, h⟩ := bind_eq_ok.1 h
  obtain ⟨encoded, hread, _⟩ := bind_eq_ok.1 h
  obtain ⟨_, _, hread⟩ := bind_eq_ok.1 hread
  split at hread
  · cases hread
  next content hfile => exact ⟨content, Disk.readFile_eq_ok.1 hfile⟩

theorem durable_eq_some (h : control.durable d = some state) :
    ∃ bytes envelope, d.get control.statePath = some (.file bytes) ∧
      control.loadEnvelope d = .ok envelope ∧ envelope.state = state := by
  unfold durable loadControl at h
  cases hload : control.loadEnvelope d with
  | error e =>
    rw [hload] at h
    cases h
  | ok envelope =>
    rw [hload] at h
    obtain ⟨bytes, hfile⟩ := file_of_loadEnvelope hload
    exact ⟨bytes, envelope, hfile, rfl, Option.some.inj h⟩

theorem loadEnvelope_congr (h : d.get control.statePath = some (.file bytes))
    (ht : t.get control.statePath = d.get control.statePath) :
    control.loadEnvelope t = control.loadEnvelope d := by
  rw [loadEnvelope_of_get h, loadEnvelope_of_get (ht.trans h)]

theorem durable_congr (h : d.get control.statePath = some (.file bytes))
    (ht : t.get control.statePath = d.get control.statePath) :
    control.durable t = control.durable d := by
  rw [durable, loadControl, loadEnvelope_congr h ht]
  rfl

theorem durable_decoded {bytes : Bytes} {envelope : StateEnvelope}
    (h : d.get control.statePath = some (.file bytes))
    (hlength : bytes.length ≤ maxControlPlaneStateBytes)
    (hdecode : decodeEnvelope bytes = .ok envelope) : control.durable d = some envelope.state := by
  rw [durable, loadControl, loadEnvelope_of_get h, if_neg (Nat.not_lt.2 hlength), hdecode]
  rfl

/-- What is encoded is decoded again, and within the limit. -/
theorem decodeEnvelope_encodeEnvelope (hversion : envelope.formatVersion = stateFormatVersion)
    (h : encodeEnvelope envelope = .ok bytes) :
    bytes.length ≤ maxControlPlaneStateBytes ∧ decodeEnvelope bytes = .ok envelope := by
  unfold encodeEnvelope at h
  split at h
  · cases h
  next encoded hencode =>
    split at h
    · cases h
    next hle =>
      cases h
      refine ⟨Nat.le_of_not_lt hle, ?_⟩
      rw [decodeEnvelope, StateJson.fromSlice_toVec envelope _ hencode]
      exact if_neg (not_not.2 hversion)

theorem version_of_loadEnvelope (h : control.loadEnvelope d = .ok envelope) :
    envelope.formatVersion = stateFormatVersion := by
  unfold loadEnvelope at h
  obtain ⟨_, _, h⟩ := bind_eq_ok.1 h
  obtain ⟨encoded, _, h⟩ := bind_eq_ok.1 h
  unfold decodeEnvelope at h
  split at h
  · cases h
  · split at h
    · cases h
    next hversion =>
      cases h
      exact not_not.1 hversion

/-! ## The programs -/

omit [StateJson] in
theorem wp_lockExclusive :
    (control.lockExclusive).wp
      (fun t => t.get control.statePath = d.get control.statePath)
      (fun _ t => t.get control.statePath = d.get control.statePath) d := by
  have hne : control.statePath ≠ control.lockPath := by
    rw [statePath, lockPath]
    simp
  rw [lockExclusive, Prog.wp_read_bind]
  refine ⟨fun _ _ => wp_io (fun t ht => ?_) fun _ => rfl, fun _ _ => rfl⟩
  have hget := (Disk.get_openCreate ht).2.1 control.statePath hne
  exact ⟨hget, hget⟩

/-- The state file after bytes were written to it. -/
theorem wp_writeState {content bytes : Bytes}
    (hfile : d.get control.statePath = some (.file content)) (hd : control.durable d = some state)
    (hlength : bytes.length ≤ maxControlPlaneStateBytes)
    (hdecode : decodeEnvelope bytes = .ok envelope) :
    (writeAtomic temp control.statePath bytes).wp
      (fun t => control.durable t = some state ∨ control.durable t = some envelope.state)
      (fun r t => (control.durable t = some state ∨ control.durable t = some envelope.state) ∧
        (r = .ok () → control.durable t = some envelope.state)) d := by
  have hdurable : ∀ t, KeptOrWritten control.statePath control.statePath content bytes t →
      control.durable t = some state ∨ control.durable t = some envelope.state := by
    intro t ht
    rcases ht with hkept | ⟨_, hwritten⟩
    · exact Or.inl ((durable_congr hfile (hkept.trans hfile.symm)).trans hd)
    · exact Or.inr (durable_decoded hwritten hlength hdecode)
  refine Prog.wp_mono (wp_writeAtomic hfile (path_ne_statePath _)) hdurable ?_
  intro r t ht
  exact ⟨hdurable t ht.1, fun hr => durable_decoded (ht.2 hr rfl) hlength hdecode⟩

theorem wp_writeOther {content bytes : Bytes}
    (hfile : d.get control.statePath = some (.file content)) (hd : control.durable d = some state)
    (hne : control.statePath ≠ path) :
    (writeAtomic temp path bytes).wp (fun t => control.durable t = some state)
      (fun _ t => control.durable t = some state) d := by
  have hdurable : ∀ t, KeptOrWritten control.statePath path content bytes t →
      control.durable t = some state := by
    intro t ht
    rcases ht with hkept | ⟨heq, _⟩
    · exact (durable_congr hfile (hkept.trans hfile.symm)).trans hd
    · exact absurd heq hne
  exact Prog.wp_mono (wp_writeAtomic hfile (path_ne_statePath _)) hdurable
    fun r t ht => hdurable t ht.1

theorem wp_saveControl {content : Bytes} {state' : InMemoryState}
    (hfile : d.get control.statePath = some (.file content)) (hd : control.durable d = some state) :
    (control.saveControl temp state').wp
      (fun t => control.durable t = some state ∨ control.durable t = some state')
      (fun r t => (control.durable t = some state ∨ control.durable t = some state') ∧
        (r = .ok () → control.durable t = some state')) d := by
  rw [saveControl, Prog.wp_read_bind]
  refine ⟨fun encoded hencode => ?_, fun e _ => ⟨Or.inl hd, nofun⟩⟩
  obtain ⟨hlength, hdecode⟩ := decodeEnvelope_encodeEnvelope rfl hencode
  exact wp_writeState hfile hd hlength hdecode

/-- **What an update does to the durable state**: it stays, or becomes what the operation makes of it,
which it is when the call returns. -/
theorem wp_update {α : Type} {operation : InMemoryState → ControlPlaneResult α × InMemoryState}
    (hd : control.durable d = some state) :
    (control.update temp operation).wp
      (fun t => control.durable t = some state ∨
        ∃ a state', operation state = (.ok a, state') ∧ control.durable t = some state')
      (fun r t => (control.durable t = some state ∨
          ∃ a state', operation state = (.ok a, state') ∧ control.durable t = some state') ∧
        ∀ a, r = .ok a → ∃ state', operation state = (.ok a, state') ∧
          control.durable t = some state') d := by
  obtain ⟨content, envelope, hfile, hload, hstate⟩ := durable_eq_some hd
  rw [update, Prog.wp_bind]
  refine Prog.wp_mono wp_lockExclusive
    (fun t ht => Or.inl ((durable_congr hfile ht).trans hd)) ?_
  intro r t ht
  have htd : control.durable t = some state := (durable_congr hfile ht).trans hd
  cases r with
  | error e => exact ⟨Or.inl htd, nofun⟩
  | ok u =>
    dsimp only
    rw [Prog.wp_read_bind]
    refine ⟨fun loaded hloaded => ?_, fun e _ => ⟨Or.inl htd, nofun⟩⟩
    have heq : loaded = state := by
      rw [loadControl, loadEnvelope_congr hfile ht, hload] at hloaded
      rw [← hstate]
      exact (Except.ok.inj hloaded).symm
    subst heq
    cases hresult : operation loaded with
    | mk result state' =>
      cases result with
      | error e =>
        dsimp only
        rw [Prog.wp_fail]
        exact ⟨Or.inl htd, nofun⟩
      | ok a =>
        dsimp only
        rw [Prog.wp_bind]
        refine Prog.wp_mono (wp_saveControl (ht.trans hfile) htd)
          (fun u hu => hu.imp id fun h => ⟨a, state', rfl, h⟩) ?_
        intro r u hu
        cases r with
        | error e => exact ⟨hu.1.imp id fun h => ⟨a, state', rfl, h⟩, nofun⟩
        | ok value =>
          dsimp only
          rw [Prog.wp_pure]
          have hsaved := hu.2 rfl
          refine ⟨Or.inr ⟨a, state', rfl, hsaved⟩, fun b hb => ?_⟩
          cases hb
          exact ⟨state', rfl, hsaved⟩

end FileControlPlane

/-! ## The calls -/

/-- What a request makes of the state, and its reply; one that restores a backup goes by the file. -/
def ControlRequest.apply (control : FileControlPlane) (nowMs : UInt64) (state : InMemoryState) :
    ControlRequest → Option (ControlReply × InMemoryState)
  | .withClock => some (.done, state)
  | .register registration =>
    let (presence, state) := (control.prune state nowMs).register
      { registration with registeredAtMs := nowMs }
    some (.presence presence, state)
  | .heartbeat beat =>
    let (response, state) := (control.prune state nowMs).heartbeat { beat with sentAtMs := nowMs }
    some (.heartbeat response, state)
  | .discoverPeers identity =>
    let state := control.prune state nowMs
    some (.peers { state.discoverPeers identity with refreshedAtMs := nowMs }, state)
  | .acquire identity serviceId ttlMs =>
    match state.acquireOrRenewServiceLease identity serviceId ttlMs nowMs with
    | (.ok lease, state) => some (.lease lease, state)
    | (.error _, _) => none
  | .release lease =>
    match state.releaseServiceLease lease with
    | (.ok (), state) => some (.done, state)
    | (.error _, _) => none
  | .backupTo _ => some (.done, state)
  | .restoreFrom _ => none

/-- What a call does to the durable state, and what it returns when it does. -/
inductive Outcome [StateJson] (control : FileControlPlane) (nowMs : UInt64) (d : Disk)
    (state : InMemoryState) (request : ControlRequest) :
    Option ControlReply → InMemoryState → Prop where
  | kept : Outcome control nowMs d state request none state
  | applied {reply : ControlReply} {state' : InMemoryState}
      (h : request.apply control nowMs state = some (reply, state'))
      (returned : Option ControlReply) (hreturned : returned = none ∨ returned = some reply) :
      Outcome control nowMs d state request returned state'
  | restored {source : Path} {bytes : Bytes} {envelope : StateEnvelope}
      (hrequest : request = .restoreFrom source)
      (hread : FileControlPlane.readBackup source d = .ok (bytes, envelope))
      (returned : Option ControlReply) (hreturned : returned = none ∨ returned = some .done) :
      Outcome control nowMs d state request returned envelope.state

namespace FileControlPlane

variable [StateJson] {control : FileControlPlane} {temp : TempName} {d t : Disk}
  {state : InMemoryState} {nowMs : UInt64}

/-- A disk that a call may leave when it returns `returned`. -/
def Leaves (control : FileControlPlane) (nowMs : UInt64) (d : Disk) (state : InMemoryState)
    (request : ControlRequest) (returned : Option ControlReply) (t : Disk) : Prop :=
  ∃ state', Outcome control nowMs d state request returned state' ∧
    control.durable t = some state'

theorem leaves_kept {request : ControlRequest} (h : control.durable t = some state) :
    Leaves control nowMs d state request none t :=
  ⟨state, .kept, h⟩

omit [StateJson] in
theorem wp_reply {α : Type} {m : ControlProg α} {f : α → ControlReply} {C : Disk → Prop}
    {Q : ControlPlaneResult ControlReply → Disk → Prop} :
    Prog.wp (m >>= fun a => pure (f a)) C Q d ↔
      m.wp C (fun r t => match r with
        | .ok a => Q (.ok (f a)) t
        | .error e => Q (.error e) t) d := by
  rw [Prog.wp_bind]
  refine iff_of_eq (congrArg (fun post => m.wp C post d) ?_)
  funext r t
  cases r with
  | error e => rfl
  | ok a => exact propext Prog.wp_pure

/-- The calls that are updates. -/
theorem leaves_update {α : Type} {request : ControlRequest} {f : α → ControlReply}
    {operation : InMemoryState → ControlPlaneResult α × InMemoryState}
    (hd : control.durable d = some state)
    (hoperation : ∀ a state', operation state = (.ok a, state') →
      request.apply control nowMs state = some (f a, state')) :
    Prog.wp (control.update temp operation >>= fun a => pure (f a))
      (Leaves control nowMs d state request none)
      (fun r t => Leaves control nowMs d state request r.toOption t) d := by
  have hstopped : ∀ t, (control.durable t = some state ∨
      ∃ a state', operation state = (.ok a, state') ∧ control.durable t = some state') →
      Leaves control nowMs d state request none t := by
    intro t ht
    rcases ht with hkept | ⟨a, state', hresult, hsaved⟩
    · exact leaves_kept hkept
    · exact ⟨state', .applied (hoperation a state' hresult) none (Or.inl rfl), hsaved⟩
  rw [wp_reply]
  refine Prog.wp_mono (wp_update hd) hstopped ?_
  intro r t ht
  cases r with
  | error e => exact hstopped t ht.1
  | ok a =>
    obtain ⟨state', hresult, hsaved⟩ := ht.2 a rfl
    exact ⟨state', .applied (hoperation a state' hresult) _ (Or.inr rfl), hsaved⟩

theorem leaves_withClock (hd : control.durable d = some state) :
    Prog.wp (control.withClock temp >>= fun _ => pure ControlReply.done)
      (Leaves control nowMs d state .withClock none)
      (fun r t => Leaves control nowMs d state .withClock r.toOption t) d := by
  obtain ⟨content, envelope, hfile, hload, -⟩ := durable_eq_some hd
  have hkept : ∀ t, t.get control.statePath = some (.file content) →
      Leaves control nowMs d state .withClock none t :=
    fun t ht => leaves_kept ((durable_congr hfile (ht.trans hfile.symm)).trans hd)
  have hdirs : Prog.Keeps (fun t : Disk => t.get control.statePath = some (.file content))
      (Prog.each (fun p => io "control-plane directory create" (Storage.ensureDir p))
        control.root.inits.tail) := by
    refine Prog.keeps_each _ fun p _ => ?_
    intro t ht
    exact wp_io (fun u hu => ⟨get_ensureDir hu ht, get_ensureDir hu ht⟩) fun _ => ht
  rw [wp_reply, withClock, Prog.wp_read_bind]
  refine ⟨fun _ _ => ?_, fun _ _ => hkept d hfile⟩
  rw [Prog.wp_bind]
  refine Prog.wp_mono (hdirs d hfile) hkept ?_
  intro r t ht
  cases r with
  | error e => exact hkept t ht
  | ok value =>
    dsimp only
    rw [initializeState, Prog.wp_bind]
    refine Prog.wp_mono wp_lockExclusive (fun u hu => hkept u (hu.trans ht)) ?_
    intro r u hu
    have hfound : u.get control.statePath = some (.file content) := hu.trans ht
    cases r with
    | error e => exact hkept u hfound
    | ok value =>
      dsimp only
      rw [Prog.wp_read_bind]
      refine ⟨fun present hpresent => ?_, fun e he => by cases he⟩
      have htrue : present = true := by
        rw [Disk.stat_of_get hfound] at hpresent
        exact (Except.ok.inj hpresent).symm
      rw [htrue, if_pos rfl, Prog.wp_read_bind]
      refine ⟨fun _ _ => ?_, fun _ _ => hkept u hfound⟩
      rw [Prog.wp_pure]
      exact ⟨state, .applied rfl _ (Or.inr rfl),
        (durable_congr hfile (hfound.trans hfile.symm)).trans hd⟩

theorem leaves_backupTo (hd : control.durable d = some state) (destination : Path) :
    Prog.wp (control.backupTo temp destination >>= fun _ => pure ControlReply.done)
      (Leaves control nowMs d state (.backupTo destination) none)
      (fun r t => Leaves control nowMs d state (.backupTo destination) r.toOption t) d := by
  obtain ⟨content, envelope, hfile, hload, hstate⟩ := durable_eq_some hd
  have hdone : ∀ t, control.durable t = some state →
      Leaves control nowMs d state (.backupTo destination) (some .done) t :=
    fun t ht => ⟨state, .applied rfl _ (Or.inr rfl), ht⟩
  rw [wp_reply, backupTo, Prog.wp_bind]
  refine Prog.wp_mono wp_lockExclusive
    (fun t ht => leaves_kept ((durable_congr hfile ht).trans hd)) ?_
  intro r t ht
  have htd : control.durable t = some state := (durable_congr hfile ht).trans hd
  cases r with
  | error e => exact leaves_kept htd
  | ok value =>
    dsimp only
    rw [Prog.wp_read_bind]
    refine ⟨fun loaded hloaded => ?_, fun _ _ => leaves_kept htd⟩
    have heq : loaded = envelope := by
      rw [loadEnvelope_congr hfile ht, hload] at hloaded
      exact (Except.ok.inj hloaded).symm
    subst heq
    rw [Prog.wp_read_bind]
    refine ⟨fun encoded hencode => ?_, fun _ _ => leaves_kept htd⟩
    by_cases hpath : control.statePath = destination
    · -- the state is replaced by itself
      obtain ⟨hlength, hdecode⟩ :=
        decodeEnvelope_encodeEnvelope (version_of_loadEnvelope hload) hencode
      rw [← hpath]
      refine Prog.wp_mono (wp_writeState (ht.trans hfile) htd hlength hdecode) ?_ ?_
      · intro u hu
        rw [hstate, or_self] at hu
        exact leaves_kept hu
      · intro r u hu
        rw [hstate, or_self] at hu
        cases r with
        | error e => exact leaves_kept hu.1
        | ok value => exact hpath ▸ hdone u hu.1
    · refine Prog.wp_mono (wp_writeOther (ht.trans hfile) htd hpath) (fun u hu => leaves_kept hu) ?_
      intro r u hu
      cases r with
      | error e => exact leaves_kept hu
      | ok value => exact hdone u hu

theorem leaves_restoreFrom (hd : control.durable d = some state) (source : Path) :
    Prog.wp (control.restoreFrom temp source >>= fun _ => pure ControlReply.done)
      (Leaves control nowMs d state (.restoreFrom source) none)
      (fun r t => Leaves control nowMs d state (.restoreFrom source) r.toOption t) d := by
  obtain ⟨content, -, hfile, -, -⟩ := durable_eq_some hd
  rw [wp_reply, restoreFrom, Prog.wp_read_bind]
  refine ⟨fun backup hbackup => ?_, fun _ _ => leaves_kept hd⟩
  obtain ⟨bytes, envelope⟩ := backup
  have hdecode : bytes.length ≤ maxControlPlaneStateBytes ∧ decodeEnvelope bytes = .ok envelope := by
    have hread := hbackup
    unfold readBackup readBounded at hread
    obtain ⟨_, _, hread⟩ := bind_eq_ok.1 hread
    obtain ⟨encoded, hencoded, hread⟩ := bind_eq_ok.1 hread
    obtain ⟨decoded, hdecoded, hread⟩ := bind_eq_ok.1 hread
    cases hread
    obtain ⟨_, _, hencoded⟩ := bind_eq_ok.1 hencoded
    split at hencoded
    · cases hencoded
    · split at hencoded
      · cases hencoded
      next hle =>
        cases hencoded
        exact ⟨Nat.le_of_not_lt hle, hdecoded⟩
  have hstopped : ∀ t, (control.durable t = some state ∨ control.durable t = some envelope.state) →
      Leaves control nowMs d state (.restoreFrom source) none t := by
    intro t ht
    rcases ht with hkept | hrestored
    · exact leaves_kept hkept
    · exact ⟨envelope.state, .restored rfl hbackup none (Or.inl rfl), hrestored⟩
  rw [Prog.wp_bind]
  refine Prog.wp_mono wp_lockExclusive
    (fun t ht => leaves_kept ((durable_congr hfile ht).trans hd)) ?_
  intro r t ht
  have htd : control.durable t = some state := (durable_congr hfile ht).trans hd
  cases r with
  | error e => exact leaves_kept htd
  | ok value =>
    refine Prog.wp_mono (wp_writeState (ht.trans hfile) htd hdecode.1 hdecode.2) hstopped ?_
    intro r u hu
    cases r with
    | error e => exact hstopped u hu.1
    | ok value => exact ⟨envelope.state, .restored rfl hbackup _ (Or.inr rfl), hu.2 rfl⟩

theorem wp_perform (hd : control.durable d = some state) (request : ControlRequest) :
    (control.perform temp nowMs request).wp (Leaves control nowMs d state request none)
      (fun r t => Leaves control nowMs d state request r.toOption t) d := by
  cases request with
  | withClock => exact leaves_withClock hd
  | register registration =>
    refine leaves_update hd ?_
    intro presence state' h
    cases h
    rfl
  | heartbeat beat =>
    refine leaves_update hd ?_
    intro response state' h
    cases h
    rfl
  | discoverPeers identity =>
    refine leaves_update hd ?_
    intro directory state' h
    cases h
    rfl
  | acquire identity serviceId ttlMs =>
    refine leaves_update hd ?_
    intro lease state' h
    rw [ControlRequest.apply, h]
  | release lease =>
    refine leaves_update (f := fun _ => ControlReply.done) hd ?_
    intro _ state' h
    rw [ControlRequest.apply, h]
  | backupTo destination => exact leaves_backupTo hd destination
  | restoreFrom source => exact leaves_restoreFrom hd source

/-- An update that returns has found a state. -/
theorem wp_update_loaded {α : Type}
    {operation : InMemoryState → ControlPlaneResult α × InMemoryState} :
    (control.update temp operation).wp (fun _ => True)
      (fun r _ => ∀ a, r = .ok a → (control.durable d).isSome) d := by
  rw [update, Prog.wp_bind]
  refine Prog.wp_mono wp_lockExclusive (fun _ _ => trivial) ?_
  intro r t ht
  cases r with
  | error e => exact nofun
  | ok value =>
    dsimp only
    rw [Prog.wp_read_bind]
    refine ⟨fun loaded hloaded => ?_, fun _ _ => nofun⟩
    have hfound : (control.durable d).isSome := by
      have ht' : control.durable t = some loaded := by rw [durable, hloaded]; rfl
      obtain ⟨bytes, -, hfile, -, -⟩ := durable_eq_some ht'
      rw [durable_congr hfile ht.symm, ht']
      rfl
    exact ⟨fun _ _ => trivial, fun _ _ => hfound⟩

theorem durable_root {control' : FileControlPlane} (h : control.root = control'.root) :
    control.durable d = control'.durable d := by
  unfold durable loadControl loadEnvelope statePath
  rw [h]

end FileControlPlane

/-- **What a call does**, whether it returns or is stopped. -/
theorem outcome_spec [StateJson] {call : ControlCall} {d t : Disk} {reply : Option ControlReply}
    {state : InMemoryState} (h : call.outcome d = some (reply, t))
    (hd : call.control.durable d = some state) :
    ∃ state', Outcome call.control call.nowMs d state call.request reply state' ∧
      call.control.durable t = some state' := by
  obtain ⟨hstops, hfinal⟩ := @FileControlPlane.wp_perform _ call.control call.temp d state call.nowMs
    hd call.request
  unfold ControlCall.outcome at h
  dsimp only at h
  cases hstop : call.stop with
  | none =>
    rw [hstop] at h
    cases h
    exact hfinal
  | some n =>
    rw [hstop] at h
    obtain ⟨u, hu, hreply⟩ := Option.map_eq_some_iff.1 h
    obtain ⟨rfl, rfl⟩ := Prod.mk.inj hreply
    rcases List.mem_cons.1 (List.mem_of_getElem? hu) with hstart | hmem
    · rw [hstart]
      exact FileControlPlane.leaves_kept hd
    · exact hstops u hmem

/-- A reply that only an update gives comes from a state. -/
theorem durable_of_outcome [StateJson] {call : ControlCall} {d t : Disk} {reply : ControlReply}
    (h : call.outcome d = some (some reply, t)) (hdone : reply ≠ .done) :
    ∃ state, call.control.durable d = some state := by
  refine Option.isSome_iff_exists.1 ?_
  have hupdate : ∀ {α : Type} {operation : InMemoryState → ControlPlaneResult α × InMemoryState}
      {f : α → ControlReply},
      Prog.wp (call.control.update call.temp operation >>= fun a => pure (f a)) (fun _ => True)
        (fun r _ => r.toOption = some reply → (call.control.durable d).isSome) d := by
    intro α operation f
    rw [FileControlPlane.wp_reply]
    refine Prog.wp_mono FileControlPlane.wp_update_loaded (fun _ _ => trivial) ?_
    intro r u hu
    cases r with
    | error e => exact nofun
    | ok a => exact fun _ => hu a rfl
  have hother : ∀ {m : ControlProg Unit},
      Prog.wp (m >>= fun _ => pure ControlReply.done) (fun _ => True)
        (fun r _ => r.toOption = some reply → (call.control.durable d).isSome) d := by
    intro m
    rw [FileControlPlane.wp_reply]
    refine ⟨fun _ _ => trivial, ?_⟩
    cases m.result d with
    | error e => exact nofun
    | ok a => exact fun heq => absurd (Option.some.inj heq).symm hdone
  have hperform : (call.control.perform call.temp call.nowMs call.request).wp (fun _ => True)
      (fun r _ => r.toOption = some reply → (call.control.durable d).isSome) d := by
    cases call.request with
    | withClock => exact hother
    | register registration => exact hupdate
    | heartbeat beat => exact hupdate
    | discoverPeers identity => exact hupdate
    | acquire identity serviceId ttlMs => exact hupdate
    | release lease => exact hother
    | backupTo destination => exact hother
    | restoreFrom source => exact hother
  unfold ControlCall.outcome at h
  dsimp only at h
  cases hstop : call.stop with
  | none =>
    rw [hstop] at h
    exact hperform.2 (Prod.mk.inj (Option.some.inj h)).1
  | some n =>
    rw [hstop] at h
    obtain ⟨u, -, hreply⟩ := Option.map_eq_some_iff.1 h
    cases hreply

end AppCore.ControlPlane
