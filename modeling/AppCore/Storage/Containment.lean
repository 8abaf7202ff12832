import AppCore.Storage.Writes

/-!
# Files stay below the roots

Where the files are that a write or a backup makes, at every moment of it.

* `files_stay_below` — a text that names something below the root puts every file strictly below it,
  but for the lock.
-/

namespace AppCore.Storage

def strictlyBelow (root : Path) : Set Path := {q | Inside root q}

/-- A text that names something below a root, and not the root itself. -/
def NamesFile (text : String) : Prop := relativeNames text ≠ some []

instance (text : String) : Decidable (NamesFile text) := inferInstanceAs (Decidable (¬ _))

def IsLock (provider : FileStorageProvider) (path : Path) : Prop :=
  siblingPath provider.storagePath "lock" = .ok path

/-- From one disk to another, files were made and replaced strictly below the root only, and at most
an empty lock file next to it. -/
structure StaysBelow (provider : FileStorageProvider) (root : Path) (d t : Disk) : Prop where
  file : ∀ q content, t.get q = some (.file content) →
    d.get q = some (.file content) ∨ Inside root q ∨
      IsLock provider q ∧ d.get q = none ∧ content = []
  kept : ∀ q content, d.get q = some (.file content) →
    t.get q = some (.file content) ∨ Inside root q
  root : ∀ content, t.get root = some (.file content) →
    d.get root = some (.file content) ∨ IsLock provider root

section Steps

variable {provider : FileStorageProvider} {root names : Path} {d t u : Disk}

theorem not_inside_self (root : Path) : ¬ Inside root root := by
  rintro ⟨c, r, h⟩
  simp at h

theorem below_subset_strictlyBelow {c : String} :
    below (root ++ names ++ [c]) ⊆ strictlyBelow root := by
  rintro q ⟨r, rfl⟩
  cases names with
  | nil => exact ⟨c, r, by simp⟩
  | cons first rest => exact ⟨first, rest ++ [c] ++ r, by simp⟩

theorem within_writeBelow {text stamp : String} {bytes : Bytes} {e : StorageError}
    (hnames : relativeNames text = some names) (htext : NamesFile text) :
    Prog.Within (strictlyBelow root) Set.univ
      (writeAtomicFile (tmpPathFor (root ++ names) stamp) (root ++ names) bytes e) := by
  obtain hnil | ⟨front, name, heq⟩ := List.eq_nil_or_concat names
  · exact absurd (hnil ▸ hnames) htext
  rw [List.concat_eq_append] at heq
  subst heq
  obtain ⟨other, -, htmp⟩ := tmpPathFor_concat (root ++ front) name stamp
  refine (within_writeAtomicFile tmpPathFor_ne bytes e).mono ?_ (Set.empty_subset _)
  rw [← List.append_assoc, htmp]
  exact Set.union_subset below_subset_strictlyBelow below_subset_strictlyBelow

theorem within_createDirs_write {region : Set Path} (path : Path) (e : StorageError)
    {m : StorageProg Unit} (hm : Prog.Within region Set.univ m) :
    Prog.Within region Set.univ (createDirAll path e >>= fun _ => m) :=
  ((within_createDirAll path e).mono (Set.empty_subset _)
    fun _ _ => .inr (Set.mem_univ _)).bind fun _ => hm

theorem openCreate_cases {p : Path} (h : d.openCreate p = .ok t) :
    t = d ∨ d.get p = none ∧ ∀ q, t.get q = if q = p then some (.file []) else d.get q := by
  by_cases hget : d.get p = none
  · right
    unfold Disk.openCreate at h
    split at h
    · rename_i hstat
      rw [Disk.stat_eq_ok.1 hstat] at hget
      cases hget
    · cases h
    · exact Disk.get_createNew h
    · cases h
  · exact .inl ((Disk.get_openCreate h).2.2 hget)

theorem StaysBelow.refl (provider : FileStorageProvider) (root : Path) (d : Disk) :
    StaysBelow provider root d d :=
  ⟨fun _ _ h => .inl h, fun _ _ h => .inl h, fun _ h => .inl h⟩

/-- The lock, and then what is confined to the paths strictly below the root. -/
theorem staysBelow_of_lock {lock : Path} (hlock : IsLock provider lock)
    (hopen : d.openCreate lock = .ok u)
    (h : Disk.Confined (strictlyBelow root) Set.univ u t) : StaysBelow provider root d t := by
  have hfile (q : Path) (content : Bytes) (hq : ¬ Inside root q)
      (ht : t.get q = some (.file content)) : d.get q = some (.file content) ∨
        IsLock provider q ∧ d.get q = none ∧ content = [] := by
    have hu := h.file_of_get hq ht
    obtain rfl | ⟨hnone, hget⟩ := openCreate_cases hopen
    · exact .inl hu
    · rw [hget] at hu
      by_cases hqlock : q = lock
      · rw [if_pos hqlock] at hu
        subst hqlock
        cases hu
        exact .inr ⟨hlock, hnone, rfl⟩
      · rw [if_neg hqlock] at hu
        exact .inl hu
  refine ⟨fun q content ht => ?_, fun q content hd => ?_, fun content ht => ?_⟩
  · by_cases hq : Inside root q
    · exact .inr (.inl hq)
    · exact (hfile q content hq ht).imp_right .inr
  · by_cases hq : Inside root q
    · exact .inr hq
    · refine .inl (h.get_of_some hq ?_)
      obtain rfl | ⟨hnone, hget⟩ := openCreate_cases hopen
      · exact hd
      · rw [hget, if_neg, hd]
        rintro rfl
        rw [hnone] at hd
        cases hd
  · exact (hfile root content (not_inside_self root) ht).imp_right fun hl => hl.1

theorem staysBelow_withStorageLock {operation : StorageProg Unit}
    (h : Prog.Within (strictlyBelow root) Set.univ operation) (d : Disk) :
    (provider.withStorageLock operation).wp (StaysBelow provider root d)
      (fun _ t => StaysBelow provider root d t) d := by
  rw [FileStorageProvider.withStorageLock, FileStorageProvider.acquireOperationLock, Prog.wp_bind,
    Prog.wp_read_bind]
  refine ⟨fun lock hlock => ?_, fun e _ => .refl _ _ _⟩
  refine wp_io (fun u hopen => ?_) fun _ => .refl _ _ _
  have hstays {t : Disk} (ht : Disk.Confined (strictlyBelow root) Set.univ u t) :
      StaysBelow provider root d t := staysBelow_of_lock hlock hopen ht
  refine ⟨hstays (.refl _ _ u), Prog.wp_mono (h.wp u) (fun t ht => hstays ht) ?_⟩
  intro r t ht
  exact hstays ht

theorem staysBelow_stops {α : Type} {m : StorageProg α}
    (h : m.wp (StaysBelow provider root d) (fun _ t => StaysBelow provider root d t) d)
    (ht : t ∈ m.stops d) : StaysBelow provider root d t := by
  rcases List.mem_cons.1 ht with rfl | ht
  · exact .refl _ _ _
  · exact h.1 t ht

end Steps

theorem within_storeBelow (provider : FileStorageProvider) {text : String}
    (htext : NamesFile text) (bytes : Bytes) (stamp : String) :
    Prog.Within (strictlyBelow provider.storagePath) Set.univ (do
      let full ← Prog.read (provider.resolveStorage text)
      createDirAll (parentPath full) .notAvailable
      let full ← Prog.read (provider.resolveStorage text)
      writeAtomicFile (tmpPathFor full stamp) full bytes (.transactionFailed text)) := by
  refine Prog.within_read_bind fun _ full _ => within_createDirs_write _ _ ?_
  refine Prog.within_read_bind fun s full hfull => ?_
  obtain ⟨names, hnames, rfl⟩ := resolveUnderRoot_eq_ok hfull
  exact within_writeBelow hnames htext

theorem staysBelow_writeBytes (provider : FileStorageProvider) {text : String}
    (htext : NamesFile text) (bytes : Bytes) (stamp : String) (d : Disk) :
    (provider.writeBytes text bytes stamp).wp (StaysBelow provider provider.storagePath d)
      (fun _ t => StaysBelow provider provider.storagePath d t) d := by
  rw [FileStorageProvider.writeBytes, Prog.wp_read_bind]
  exact ⟨fun _ _ => staysBelow_withStorageLock (within_storeBelow provider htext bytes stamp) d,
    fun _ _ => .refl _ _ _⟩

theorem staysBelow_backupFile (provider : FileStorageProvider) (source : String) {text : String}
    (htext : NamesFile text) (stamp : String) (d : Disk) :
    (provider.backupFile source text stamp).wp (StaysBelow provider provider.backupPath d)
      (fun _ t => StaysBelow provider provider.backupPath d t) d := by
  rw [FileStorageProvider.backupFile, Prog.wp_read_bind]
  refine ⟨fun _ _ => ?_, fun _ _ => .refl _ _ _⟩
  rw [Prog.wp_read_bind]
  refine ⟨fun _ _ => staysBelow_withStorageLock ?_ d, fun _ _ => .refl _ _ _⟩
  refine Prog.within_read_bind fun _ sourceFull _ => Prog.within_read_bind fun _ present _ => ?_
  split
  · refine Prog.within_read_bind fun _ full _ => within_createDirs_write _ _ ?_
    refine Prog.within_read_bind fun s full hfull => Prog.within_read_bind fun _ bytes _ => ?_
    obtain ⟨names, hnames, rfl⟩ := resolveUnderRoot_eq_ok hfull
    exact within_writeBelow hnames htext
  · exact Prog.within_fail _

/-- **Files stay below the roots.** Whenever a write or a backup is stopped, it has made and replaced
files strictly below its root only, but for the empty lock file, and its root is no file that it was
not before. -/
theorem files_stay_below (provider : FileStorageProvider) (text source : String)
    (htext : NamesFile text) (bytes : Bytes) (stamp : String) (d : Disk) :
    (∀ t ∈ (provider.writeBytes text bytes stamp).stops d,
      StaysBelow provider provider.storagePath d t) ∧
    ∀ t ∈ (provider.backupFile source text stamp).stops d,
      StaysBelow provider provider.backupPath d t :=
  ⟨fun _ => staysBelow_stops (staysBelow_writeBytes provider htext bytes stamp d),
    fun _ => staysBelow_stops (staysBelow_backupFile provider source htext stamp d)⟩

/-! ## The lock, and the root itself -/

section Outside

variable {provider : FileStorageProvider} {parent : Path} {base text stamp : String} {bytes : Bytes}
  {d : Disk}

/-- Once its text was resolved, a write makes the lock, which is next to the data root. -/
theorem wp_writeBytes_locks {lock full : Path} (hlock : IsLock provider lock)
    (hresolve : provider.resolveStorage text d = .ok full) (hopen : ∃ u, d.openCreate lock = .ok u)
    (htext : NamesFile text) (hout : ¬ Inside provider.storagePath lock) :
    (provider.writeBytes text bytes stamp).wp (fun _ => True)
      (fun _ t => ∃ content, t.get lock = some (.file content)) d := by
  obtain ⟨u, hu⟩ := hopen
  rw [FileStorageProvider.writeBytes, Prog.wp_bind, Prog.wp_read, hresolve]
  dsimp only
  rw [FileStorageProvider.withStorageLock, FileStorageProvider.acquireOperationLock, Prog.wp_bind,
    Prog.wp_bind, Prog.wp_read, hlock]
  refine wp_io (fun t ht => ⟨trivial, ?_⟩) fun hi => ?_
  · obtain ⟨content, hfile⟩ := (Disk.get_openCreate ht).1
    refine Prog.wp_mono ((within_storeBelow provider htext bytes stamp).wp t)
      (fun _ _ => trivial) ?_
    intro r v hv
    exact ⟨content, hv.get_of_some hout hfile⟩
  · simp [hu] at hi

/-- **A text that names the root** makes a file of a missing root. -/
theorem wp_writeBytes_root {b : Bytes} (hp : provider.storagePath = parent ++ [base])
    (hresolve : provider.resolveStorage text d = .ok (parent ++ [base]))
    (hlock : d.get (sibling parent base "lock") = some (.file b))
    (hroot : d.get (parent ++ [base]) = none)
    (hfree : d.Free (tmpPathFor (parent ++ [base]) stamp)) :
    (provider.writeBytes text bytes stamp).wp (fun _ => True)
      (fun r t => r = .ok () ∧ t.get (parent ++ [base]) = some (.file bytes)) d := by
  have hopen : d.openCreate (sibling parent base "lock") = .ok d := by
    rw [Disk.openCreate, Disk.stat_of_get hlock]
  rw [FileStorageProvider.writeBytes, Prog.wp_bind, Prog.wp_read, hresolve]
  dsimp only
  rw [FileStorageProvider.withStorageLock, FileStorageProvider.acquireOperationLock, hp,
    siblingPath_concat, Prog.wp_bind, Prog.wp_bind, Prog.wp_read]
  refine wp_io (fun t ht => ⟨trivial, ?_⟩) fun hi => ?_
  swap
  · simp [hopen] at hi
  obtain rfl := Except.ok.inj (hopen.symm.trans ht)
  dsimp only
  rw [Prog.wp_bind, Prog.wp_read, hresolve]
  dsimp only
  rw [Prog.wp_bind, parentPath, List.dropLast_concat]
  refine createDirAll_present (Disk.get_of_append hlock) trivial ?_
  dsimp only
  rw [Prog.wp_bind, Prog.wp_read, hresolve]
  dsimp only
  obtain ⟨other, hother, htmp⟩ := tmpPathFor_concat parent base stamp
  rw [htmp] at hfree ⊢
  have hdir : d.get (parent ++ [base]) ≠ some .dir := by simp [hroot]
  refine Prog.wp_mono (wp_writeAtomicFile_replaces hother (clear_of_resolve hresolve) hdir)
    (fun _ _ => trivial) ?_
  rintro r t (⟨hr, hget⟩ | ⟨-, htaken, -⟩)
  · exact ⟨hr, by rw [hget, if_pos rfl]⟩
  · exact absurd hfree htaken

end Outside

/-- A data root that nothing was done in yet. -/
def freshDisk : Disk :=
  .ofNodes [([], .dir), (["srv"], .dir), (["srv", "data"], .dir)] (by decide)

/-- A data root that went away. -/
def rootlessDisk : Disk :=
  .ofNodes [([], .dir), (["srv"], .dir), (["srv", "data.lock"], .file [])] (by decide)

/-- **What is not below the root**: the lock of the first write, and the root that `.` names, which
becomes a file. -/
theorem not_all_below_roots :
    let first := sampleProvider.writeBytes "a" [3] "1_ThreadId1_0"
    let dot := sampleProvider.writeBytes "." [3] "1_ThreadId1_0"
    (freshDisk.get ["srv", "data.lock"] = none ∧ ¬ Inside sampleProvider.storagePath
        ["srv", "data.lock"] ∧
      ∃ content, (first.final freshDisk).get ["srv", "data.lock"] = some (.file content)) ∧
    rootlessDisk.get sampleProvider.storagePath = none ∧ dot.result rootlessDisk = .ok () ∧
      (dot.final rootlessDisk).get sampleProvider.storagePath = some (.file [3]) := by
  intro first dot
  have hlock : IsLock sampleProvider ["srv", "data.lock"] := siblingPath_concat ["srv"] "data" "lock"
  have hout : ¬ Inside sampleProvider.storagePath ["srv", "data.lock"] := by
    rintro ⟨c, r, h⟩
    simp [sampleProvider] at h
  have hresolve : sampleProvider.resolveStorage "a" freshDisk = .ok ["srv", "data", "a"] := by decide
  have hfirst : (first.wp (fun _ => True) fun _ t => ∃ content,
      t.get ["srv", "data.lock"] = some (.file content)) freshDisk :=
    wp_writeBytes_locks hlock hresolve (Disk.createNew_ok (by decide)) (by decide) hout
  have hdot : (dot.wp (fun _ => True) fun r t => r = .ok () ∧
      t.get (["srv"] ++ ["data"]) = some (.file [3])) rootlessDisk :=
    wp_writeBytes_root (b := []) rfl (by decide) (by decide) (by decide) (by decide)
  exact ⟨⟨by decide, hout, hfirst.2⟩, by decide, hdot.2.1, hdot.2.2⟩

/-- A write of a file in a directory that is not there, and a backup of it. -/
theorem files_stay_below_sample :
    (∀ t ∈ (sampleProvider.writeBytes "a/b" [3] "1_ThreadId1_0").stops rootlessDisk,
      StaysBelow sampleProvider sampleProvider.storagePath rootlessDisk t) ∧
    ∀ t ∈ (sampleProvider.backupFile "b" "a/b" "1_ThreadId1_0").stops rootlessDisk,
      StaysBelow sampleProvider sampleProvider.backupPath rootlessDisk t :=
  files_stay_below sampleProvider "a/b" "b" (by decide) [3] "1_ThreadId1_0" rootlessDisk

end AppCore.Storage
