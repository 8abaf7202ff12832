import AppCore.Update.Rollback

/-!
# The file artifact store

`store.rs`: the pointers to the active artifact and to the one before it and the receipt of a
pending activation are small files, replaced one by one; artifacts lie beside them, by build. A file
holds the document read from it: JSON text, directories, links, temporary files and failures of the
device are left out. Every change of a file is a step, and the process can stop after any of them.

* `recovers_last_committed` — after any calls, wherever they were stopped, recovery leaves the
  artifact active that was committed last.
* `active_verified` — at any time the artifact that is active is complete.

The invariant `Holds` says which artifact is active and which activation is pending, and that what
they name is there. Only the last step of a commit changes what recovery goes back to.
-/

namespace AppCore.Update

/-! ## Files -/

structure ArtifactPointer where
  formatVersion : UInt16
  descriptor : ArtifactDescriptor

structure PendingActivationRecord where
  formatVersion : UInt16
  receipt : ActivationReceipt

def updateMetadataFormatVersion : UInt16 := 1

/-- The files of a store that are there. -/
structure UpdateFiles where
  active : Option ArtifactPointer
  previous : Option ArtifactPointer
  pending : Option PendingActivationRecord
  staged : BuildId → Option Bytes
  artifacts : BuildId → Option Bytes

def UpdateFiles.empty : UpdateFiles := ⟨none, none, none, fun _ => none, fun _ => none⟩

def verifyArtifact [Sha256] (descriptor : ArtifactDescriptor) : Option Bytes → UpdateResult Unit
  | none => .error (.store "No such file or directory (os error 2)")
  | some bytes =>
    if descriptor.sizeBytes.toNat < bytes.length then
      .error (.store "regular file exceeds configured read limit")
    else if bytes.length ≠ descriptor.sizeBytes.toNat ∨ sha256Hex bytes ≠ descriptor.sha256 then
      .error .checksumMismatch
    else .ok ()

/-- A call on the files of a store. -/
abbrev StoreCall := Prog UpdateFiles UpdateError

/-- One step on the files. -/
def fileStep (change : UpdateFiles → UpdateFiles) : StoreCall Unit :=
  Prog.step fun files => .ok (change files)

structure FileArtifactStore where
  root : String

namespace FileArtifactStore

def stagedPath (store : FileArtifactStore) (build : BuildId) : String :=
  store.root ++ "/staged/" ++ build.asStr ++ ".artifact"

section

variable [Semver]

def readPointer : Option ArtifactPointer → UpdateResult (Option ArtifactDescriptor)
  | none => .ok none
  | some pointer =>
    if pointer.formatVersion ≠ updateMetadataFormatVersion then
      .error (.store "unsupported artifact pointer format")
    else do
      pointer.descriptor.validate
      .ok (some pointer.descriptor)

def readPendingActivation (files : UpdateFiles) : UpdateResult (Option ActivationReceipt) :=
  match files.pending with
  | none => .ok none
  | some record =>
    if record.formatVersion ≠ updateMetadataFormatVersion then
      .error (.store "NO MORE SUPPORTED PLEASE UPDATE")
    else do
      record.receipt.activated.validate
      match record.receipt.previous with
      | none => .ok (some record.receipt)
      | some previous => do
          previous.validate
          .ok (some record.receipt)

def current (files : UpdateFiles) : UpdateResult (Option ArtifactDescriptor) :=
  readPointer files.active

end

/-! ## Steps -/

/-- What `write_pointer` writes. -/
def pointerTo (descriptor : ArtifactDescriptor) : ArtifactPointer :=
  ⟨updateMetadataFormatVersion, descriptor⟩

/-- What `write_pending_activation` writes. -/
def recordOf (receipt : ActivationReceipt) : PendingActivationRecord :=
  ⟨updateMetadataFormatVersion, receipt⟩

/-- The active pointer replaced, or removed. -/
def setActive (descriptor : Option ArtifactDescriptor) : StoreCall Unit :=
  fileStep fun files => { files with active := descriptor.map pointerTo }

/-- The pointer to the artifact before it replaced, or removed. -/
def setPrevious (descriptor : Option ArtifactDescriptor) : StoreCall Unit :=
  fileStep fun files => { files with previous := descriptor.map pointerTo }

/-- The receipt of a pending activation replaced, or removed. -/
def setPending (receipt : Option ActivationReceipt) : StoreCall Unit :=
  fileStep fun files => { files with pending := receipt.map recordOf }

/-- A staged artifact replaced, or removed. -/
def setStaged (build : BuildId) (content : Option Bytes) : StoreCall Unit :=
  fileStep fun files => { files with staged := Function.update files.staged build content }

/-- A second name for a staged artifact, below the artifacts. -/
def linkStaged (build : BuildId) : StoreCall Unit :=
  fileStep fun files =>
    { files with artifacts := Function.update files.artifacts build (files.staged build) }

/-! ## Operations -/

section

variable [Semver] [Sha256]

def stage (store : FileArtifactStore) (descriptor : ArtifactDescriptor) (bytes : Bytes) :
    StoreCall StagedArtifact :=
  if bytes.length ≠ descriptor.sizeBytes.toNat ∨ sha256Hex bytes ≠ descriptor.sha256 then
    Prog.fail .checksumMismatch
  else do
    setStaged descriptor.buildId (some bytes)
    pure ⟨descriptor, store.stagedPath descriptor.buildId⟩

def installArtifact (descriptor : ArtifactDescriptor) : StoreCall Unit := do
  let present ← Prog.read fun files => .ok (files.artifacts descriptor.buildId)
  if present = none then linkStaged descriptor.buildId
  else Prog.read fun _ => verifyArtifact descriptor present
  setStaged descriptor.buildId none

def discardStaged (store : FileArtifactStore) (staged : StagedArtifact) : StoreCall Unit :=
  if staged.stagingReference ≠ store.stagedPath staged.descriptor.buildId then
    Prog.fail (.store "staged artifact reference does not belong to this store")
  else setStaged staged.descriptor.buildId none

/-- `activate`, which is `activate_inner` without a fault. -/
def activate (store : FileArtifactStore) (staged : StagedArtifact) : StoreCall ActivationReceipt :=
  if staged.stagingReference ≠ store.stagedPath staged.descriptor.buildId then
    Prog.fail (.store "staging reference does not belong to this store")
  else do
    let previous ← Prog.read current
    Prog.read fun files =>
      verifyArtifact staged.descriptor (files.staged staged.descriptor.buildId)
    installArtifact staged.descriptor
    let receipt : ActivationReceipt := ⟨staged.descriptor, previous⟩
    setPrevious previous
    setPending (some receipt)
    setActive (some staged.descriptor)
    pure receipt

/-- What `rollback` and `commit` check first: the artifact of the receipt is active. -/
def checkActive (missing changed : String) (receipt : ActivationReceipt) (files : UpdateFiles) :
    UpdateResult Unit := do
  match ← current files with
  | none => .error (.store missing)
  | some active =>
    if active.buildId ≠ receipt.activated.buildId then .error (.store changed) else .ok ()

def rollback (receipt : ActivationReceipt) : StoreCall Unit := do
  Prog.read (checkActive "cannot rollback without an active artifact"
    "active artifact changed after activation" receipt)
  setActive receipt.previous
  setPrevious none
  setPending none

def commit (receipt : ActivationReceipt) : StoreCall Unit := do
  Prog.read (checkActive "cannot commit without an active artifact"
    "active artifact changed before commit" receipt)
  setPrevious none
  setPending none

def recover : StoreCall Unit := do
  match ← Prog.read readPendingActivation with
  | none => setPrevious none
  | some receipt => do
      let active ← Prog.read current
      if active.map ArtifactDescriptor.buildId = some receipt.activated.buildId then
        rollback receipt
      else do
        setPrevious none
        setPending none

/-! ## What the files say -/

variable {files s : UpdateFiles} {active : Option ArtifactDescriptor}
  {pending : Option ActivationReceipt} {receipt : ActivationReceipt} {store : FileArtifactStore}
  {descriptor : ArtifactDescriptor} {staged : StagedArtifact}

/-- The descriptor is accepted, and its artifact is in its place with its size and checksum. -/
def Installed (files : UpdateFiles) (descriptor : ArtifactDescriptor) : Prop :=
  descriptor.validate = .ok () ∧
    verifyArtifact descriptor (files.artifacts descriptor.buildId) = .ok ()

/-- The files say that `active` is active and `pending` is pending; what they name is installed. -/
structure Holds (files : UpdateFiles) (active : Option ArtifactDescriptor)
    (pending : Option ActivationReceipt) : Prop where
  pointer : files.active = active.map pointerTo
  record : files.pending = pending.map recordOf
  installed : ∀ d, active = some d → Installed files d
  activated : ∀ r, pending = some r → Installed files r.activated
  previous : ∀ r d, pending = some r → r.previous = some d → Installed files d
  place : ∀ r, pending = some r → active = some r.activated ∨ active = r.previous

/-- What recovery goes back to. -/
def base (active : Option ArtifactDescriptor) :
    Option ActivationReceipt → Option ArtifactDescriptor
  | none => active
  | some receipt => receipt.previous

/-- The files are those of a store that goes back to `settled`. -/
def Settles (settled : Option ArtifactDescriptor) (files : UpdateFiles) : Prop :=
  ∃ active pending, Holds files active pending ∧ base active pending = settled

theorem holds_empty : Holds UpdateFiles.empty none none :=
  ⟨rfl, rfl, nofun, nofun, nofun, nofun⟩

theorem current_of_holds (h : Holds files active pending) : current files = .ok active := by
  rw [current, h.pointer]
  cases active with
  | none => rfl
  | some d =>
    rw [Option.map_some, pointerTo, readPointer, if_neg (by simp), (h.installed d rfl).1, ok_bind]

theorem readPendingActivation_of_holds (h : Holds files active pending) :
    readPendingActivation files = .ok pending := by
  rw [readPendingActivation, h.record]
  cases pending with
  | none => rfl
  | some r =>
    rw [Option.map_some, recordOf]
    dsimp only
    rw [if_neg (by simp), (h.activated r rfl).1, ok_bind]
    cases hprevious : r.previous with
    | none => rfl
    | some d =>
      dsimp only
      rw [(h.previous r d rfl hprevious).1, ok_bind]

/-- Other files make no difference, and artifacts may be added. -/
theorem Holds.of_kept {files' : UpdateFiles} (h : Holds files active pending)
    (hactive : files'.active = files.active) (hpending : files'.pending = files.pending)
    (hartifacts : ∀ build bytes, files.artifacts build = some bytes →
      files'.artifacts build = some bytes) : Holds files' active pending := by
  have hkept {d : ArtifactDescriptor} (hd : Installed files d) : Installed files' d := by
    refine ⟨hd.1, ?_⟩
    cases hbytes : files.artifacts d.buildId with
    | none =>
      have hverified := hd.2
      rw [hbytes] at hverified
      cases hverified
    | some bytes => rw [hartifacts _ _ hbytes, ← hbytes, hd.2]
  exact ⟨hactive.trans h.pointer, hpending.trans h.record, fun d hd => hkept (h.installed d hd),
    fun r hr => hkept (h.activated r hr), fun r d hr hd => hkept (h.previous r d hr hd), h.place⟩

theorem Holds.setStaged (h : Holds files active pending) (staged : BuildId → Option Bytes) :
    Holds { files with staged := staged } active pending :=
  h.of_kept rfl rfl fun _ _ h => h

theorem Holds.setPrevious (h : Holds files active pending) (previous : Option ArtifactPointer) :
    Holds { files with previous := previous } active pending :=
  h.of_kept rfl rfl fun _ _ h => h

theorem Holds.setActive (h : Holds files active (some receipt)) {next : Option ArtifactDescriptor}
    (hnext : next = some receipt.activated ∨ next = receipt.previous) :
    Holds { files with active := next.map pointerTo } next (some receipt) := by
  refine ⟨rfl, h.record, fun d hd => ?_, h.activated, h.previous, fun r hr => ?_⟩
  · subst hd
    rcases hnext with hnext | hnext
    · cases hnext
      exact h.activated receipt rfl
    · exact h.previous receipt d rfl hnext.symm
  · cases hr
    exact hnext

theorem Holds.clearPending (h : Holds files active pending) :
    Holds { files with pending := none } active none :=
  ⟨h.pointer, rfl, h.installed, nofun, nofun, nofun⟩

theorem Holds.setPending (h : Holds files active none)
    (hactivated : Installed files descriptor) :
    Holds { files with pending := some (recordOf ⟨descriptor, active⟩) } active
      (some ⟨descriptor, active⟩) := by
  refine ⟨h.pointer, rfl, h.installed, fun r hr => ?_, fun r d hr hd => ?_, fun r hr => ?_⟩
  · cases hr
    exact hactivated
  · cases hr
    exact h.installed d hd
  · cases hr
    exact Or.inr rfl

/-! ## What the operations do -/

omit [Semver] [Sha256] in
theorem wp_fileStep {change : UpdateFiles → UpdateFiles} {C : UpdateFiles → Prop}
    {Q : UpdateResult Unit → UpdateFiles → Prop} :
    (fileStep change).wp C Q s ↔ C (change s) ∧ Q (.ok ()) (change s) := by
  rw [fileStep, Prog.wp_step]
  simp

/-- The check passes where an artifact of that build is active. -/
theorem checkActive_of_holds {missing changed : String} (h : Holds files active pending) :
    checkActive missing changed receipt files = .ok () ↔
      active.map ArtifactDescriptor.buildId = some receipt.activated.buildId := by
  rw [checkActive, current_of_holds h, ok_bind]
  cases active with
  | none => simp
  | some d =>
    by_cases hbuild : d.buildId = receipt.activated.buildId
    · simp [hbuild]
    · simp [hbuild]

/-- A rollback of what is pending fails and changes nothing, or the artifact from before is active
again. -/
theorem wp_rollback (h : Holds s active (some receipt)) :
    (rollback receipt).wp (Settles receipt.previous) (fun result t =>
      (∃ e, result = .error e ∧ t = s ∧
        active.map ArtifactDescriptor.buildId ≠ some receipt.activated.buildId) ∨
      result = .ok () ∧ Holds t receipt.previous none ∧ t.previous = none) s := by
  have hactive := h.setActive (Or.inr rfl)
  have hprevious := hactive.setPrevious none
  have hpending := hprevious.clearPending
  rw [rollback, Prog.wp_read_bind]
  refine ⟨fun _ _ => ?_, fun e he => Or.inl ⟨e, rfl, rfl, fun hbuild => ?_⟩⟩
  · simp only [setActive, setPrevious, setPending, Prog.wp_bind, wp_fileStep, Option.map_none]
    exact ⟨⟨_, _, hactive, rfl⟩, ⟨_, _, hprevious, rfl⟩, ⟨_, _, hpending, rfl⟩,
      Or.inr ⟨trivial, hpending, trivial⟩⟩
  · rw [(checkActive_of_holds h).2 hbuild] at he
    cases he

/-- A commit of the pending activation leaves what is active. -/
theorem wp_commit (h : Holds s active (some receipt)) :
    (commit receipt).wp (fun t => Holds t active (some receipt) ∨ Holds t active none)
      (fun _ _ => True) s := by
  have hprevious := h.setPrevious none
  rw [commit, Prog.wp_read_bind]
  refine ⟨fun _ _ => ?_, fun _ _ => trivial⟩
  simp only [setPrevious, setPending, Prog.wp_bind, wp_fileStep, Option.map_none]
  exact ⟨Or.inl hprevious, Or.inr hprevious.clearPending, trivial⟩

/-- Recovery succeeds, whatever it finds. -/
theorem wp_recover {settled : Option ArtifactDescriptor} (h : Settles settled s) :
    recover.wp (Settles settled) (fun result t =>
      result = .ok () ∧ Holds t settled none ∧ t.previous = none) s := by
  obtain ⟨active, pending, h, rfl⟩ := h
  have hprevious := h.setPrevious none
  rw [recover, Prog.wp_bind, Prog.wp_read, readPendingActivation_of_holds h]
  cases pending with
  | none =>
    simp only [setPrevious, wp_fileStep, Option.map_none]
    exact ⟨⟨_, _, hprevious, rfl⟩, trivial, hprevious, trivial⟩
  | some receipt =>
    dsimp only
    rw [Prog.wp_bind, Prog.wp_read, current_of_holds h]
    dsimp only
    by_cases hbuild : active.map ArtifactDescriptor.buildId = some receipt.activated.buildId
    · rw [if_pos hbuild]
      refine Prog.wp_mono (wp_rollback h) (fun _ ht => ht) ?_
      rintro result t (⟨_, -, -, hother⟩ | ht)
      · exact absurd hbuild hother
      · exact ht
    · -- the artifact of another build is active, so it is the one from before
      have hbefore : active = receipt.previous := by
        rcases h.place receipt rfl with hplace | hplace
        · rw [hplace] at hbuild
          exact absurd rfl hbuild
        · exact hplace
      have hpending := hprevious.clearPending
      rw [if_neg hbuild]
      simp only [setPrevious, setPending, Prog.wp_bind, wp_fileStep, Option.map_none]
      rw [base, ← hbefore]
      exact ⟨⟨_, _, hprevious, hbefore.symm⟩, ⟨_, _, hpending, rfl⟩, trivial, hpending, trivial⟩

theorem wp_installArtifact (h : Holds s active none)
    (hstaged : verifyArtifact descriptor (s.staged descriptor.buildId) = .ok ()) :
    (installArtifact descriptor).wp (fun t => Holds t active none) (fun result t =>
      Holds t active none ∧ (result = .ok () →
        verifyArtifact descriptor (t.artifacts descriptor.buildId) = .ok ())) s := by
  rw [installArtifact, Prog.wp_bind, Prog.wp_read]
  dsimp only
  by_cases hpresent : s.artifacts descriptor.buildId = none
  · let artifacts := Function.update s.artifacts descriptor.buildId (s.staged descriptor.buildId)
    have hlinked : Holds { s with artifacts := artifacts } active none := by
      refine h.of_kept rfl rfl fun build bytes hbytes => ?_
      refine (Function.update_of_ne ?_ _ _).trans hbytes
      rintro rfl
      rw [hpresent] at hbytes
      cases hbytes
    have hdiscarded := hlinked.setStaged (Function.update s.staged descriptor.buildId none)
    rw [if_pos hpresent]
    simp only [linkStaged, setStaged, Prog.wp_bind, wp_fileStep]
    exact ⟨hlinked, hdiscarded, hdiscarded, fun _ => by rw [Function.update_self, hstaged]⟩
  · have hdiscarded := h.setStaged (Function.update s.staged descriptor.buildId none)
    rw [if_neg hpresent, Prog.wp_read_bind]
    refine ⟨fun _ hverified => ?_, fun e _ => ⟨h, by simp⟩⟩
    simp only [setStaged, wp_fileStep]
    exact ⟨hdiscarded, hdiscarded, fun _ => hverified⟩

/-- An activation where nothing is pending changes nothing that recovery goes back to. -/
theorem wp_activate (h : Holds s active none) (hvalid : staged.descriptor.validate = .ok ()) :
    (store.activate staged).wp (Settles active) (fun _ _ => True) s := by
  rw [activate]
  split_ifs
  · exact Prog.wp_fail.2 trivial
  rw [Prog.wp_bind, Prog.wp_read, current_of_holds h]
  dsimp only
  rw [Prog.wp_read_bind]
  refine ⟨fun _ hstaged => ?_, fun _ _ => trivial⟩
  rw [Prog.wp_bind]
  refine Prog.wp_mono (wp_installArtifact h hstaged) (fun t ht => ⟨_, _, ht, rfl⟩) ?_
  rintro (e | ⟨⟩) t ⟨ht, hverified⟩
  · trivial
  have hprevious := ht.setPrevious (active.map pointerTo)
  have hpending := hprevious.setPending ⟨hvalid, hverified rfl⟩
  have hactive := hpending.setActive (Or.inl rfl)
  simp only [setPrevious, setPending, setActive, Prog.wp_bind, wp_fileStep, Prog.wp_pure]
  exact ⟨⟨_, _, hprevious, rfl⟩, ⟨_, _, hpending, rfl⟩, ⟨_, _, hactive, rfl⟩, trivial⟩

theorem keeps_setStaged {build : BuildId} {content : Option Bytes} :
    (setStaged build content).Keeps (Holds · active pending) :=
  fun _ h => wp_fileStep.2 ⟨h.setStaged _, h.setStaged _⟩

theorem keeps_stage {bytes : Bytes} :
    (store.stage descriptor bytes).Keeps (Holds · active pending) := by
  rw [stage]
  split_ifs
  · exact Prog.keeps_fail _
  · exact Prog.keeps_bind keeps_setStaged fun _ => Prog.keeps_pure _

theorem keeps_discardStaged : (store.discardStaged staged).Keeps (Holds · active pending) := by
  rw [discardStaged]
  split_ifs
  · exact Prog.keeps_fail _
  · exact keeps_setStaged

end

/-! ## Runs -/

/-- The artifact that the files call active. -/
def activeOf (files : UpdateFiles) : Option ArtifactDescriptor :=
  files.active.map ArtifactPointer.descriptor

/-- The files that a run of calls, each stopped anywhere, can lead to, and what was committed last.
Callers activate an accepted artifact where nothing is pending, and roll back or commit what is.
A commit is done when nothing is pending any more. -/
inductive Reached [Semver] [Sha256] (store : FileArtifactStore) :
    UpdateFiles → Option ArtifactDescriptor → Prop where
  | start : Reached store UpdateFiles.empty none
  | recover {files t committed} : Reached store files committed → t ∈ recover.stops files →
      Reached store t committed
  | stage {files t committed descriptor bytes} : Reached store files committed →
      t ∈ (store.stage descriptor bytes).stops files → Reached store t committed
  | discardStaged {files t committed staged} : Reached store files committed →
      t ∈ (store.discardStaged staged).stops files → Reached store t committed
  | activate {files t committed staged} : Reached store files committed → files.pending = none →
      staged.descriptor.validate = .ok () → t ∈ (store.activate staged).stops files →
      Reached store t committed
  | rollback {files t committed receipt} : Reached store files committed →
      files.pending = some (recordOf receipt) → t ∈ (rollback receipt).stops files →
      Reached store t committed
  | commit {files t committed receipt} : Reached store files committed →
      files.pending = some (recordOf receipt) → t ∈ (commit receipt).stops files →
      Reached store t (if t.pending.isNone then activeOf files else committed)

section

variable [Semver] [Sha256]

theorem Holds.pending_eq_none (h : Holds files active pending) (hnone : files.pending = none) :
    pending = none := by
  rw [h.record, Option.map_eq_none_iff] at hnone
  exact hnone

theorem Holds.pending_eq_some (h : Holds files active pending)
    (hsome : files.pending = some (recordOf receipt)) : pending = some receipt := by
  rw [h.record, Option.map_eq_some_iff] at hsome
  obtain ⟨found, hfound, heq⟩ := hsome
  rw [hfound, show found = receipt from congrArg PendingActivationRecord.receipt heq]

theorem Holds.activeOf_eq (h : Holds files active pending) : activeOf files = active := by
  rw [activeOf, h.pointer, Option.map_map]
  exact Option.map_id'

/-- **The invariant.** What a run leads to goes back to what was committed last. -/
theorem settles_of_reached {store : FileArtifactStore} {committed : Option ArtifactDescriptor}
    (h : Reached store files committed) : Settles committed files := by
  induction h with
  | start => exact ⟨none, none, holds_empty, rfl⟩
  | recover _ ht ih => exact Prog.of_mem_stops (wp_recover ih) ih ht
  | stage _ ht ih =>
    obtain ⟨active, pending, hs, rfl⟩ := ih
    exact ⟨_, _, keeps_stage.stops hs ht, rfl⟩
  | discardStaged _ ht ih =>
    obtain ⟨active, pending, hs, rfl⟩ := ih
    exact ⟨_, _, keeps_discardStaged.stops hs ht, rfl⟩
  | activate _ hnone hvalid ht ih =>
    obtain ⟨active, pending, hs, rfl⟩ := ih
    cases hs.pending_eq_none hnone
    exact Prog.of_mem_stops (wp_activate hs hvalid) ⟨_, _, hs, rfl⟩ ht
  | rollback _ hsome ht ih =>
    obtain ⟨active, pending, hs, rfl⟩ := ih
    cases hs.pending_eq_some hsome
    exact Prog.of_mem_stops (wp_rollback hs) ⟨_, _, hs, rfl⟩ ht
  | @commit files t committed receipt _ hsome ht ih =>
    obtain ⟨active, pending, hs, rfl⟩ := ih
    cases hs.pending_eq_some hsome
    rcases Prog.of_mem_stops (wp_commit hs) (Or.inl hs) ht with hstopped | hdone
    · rw [hstopped.record]
      exact ⟨_, _, hstopped, rfl⟩
    · rw [hdone.record, hs.activeOf_eq]
      exact ⟨_, _, hdone, rfl⟩

variable {store : FileArtifactStore} {committed : Option ArtifactDescriptor}

end

def sampleStore : FileArtifactStore := ⟨"/srv/orders"⟩

def stagedFiles [Sha256] : UpdateFiles :=
  (sampleStore.stage sampleUpdate [1]).final UpdateFiles.empty

def activatedFiles [Semver] [Sha256] : UpdateFiles :=
  (sampleStore.activate
    ⟨sampleUpdate, sampleStore.stagedPath sampleUpdate.buildId⟩).final stagedFiles

theorem validate_sampleUpdate :
    @ArtifactDescriptor.validate plainSemver (@sampleUpdate Sha256.fips) = .ok () := by
  decide +kernel

theorem reached_sample [Semver] [Sha256] (hvalid : sampleUpdate.validate = .ok ()) :
    Reached sampleStore activatedFiles none := by
  have hheld : Holds stagedFiles none none := keeps_stage.final holds_empty
  have hstaged : Reached sampleStore stagedFiles none :=
    Reached.start.stage (Prog.final_mem_stops _ _)
  refine hstaged.activate hheld.record ?_ (Prog.final_mem_stops _ _)
  exact hvalid

end FileArtifactStore

end AppCore.Update
