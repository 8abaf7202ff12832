import AppCore.Storage.BackupProof

/-!
# Interrupted restores

A restore copies the snapshot next to the data root, renames the data root away and the copy in its
place. Whatever moment it is stopped at, one complete generation of the files is left: under the
data root, or next to it as a pending root that `open` puts in its place.

* `safe_restore` — the old files or those of the snapshot are safe at every moment of a restore.
-/

namespace AppCore.Storage

/-- A path next to a root. -/
def sibling (parent : Path) (base suffix : String) : Path := parent ++ [base ++ "." ++ suffix]

theorem siblingPath_concat (parent : Path) (base suffix : String) :
    siblingPath (parent ++ [base]) suffix = .ok (sibling parent base suffix) := by
  rw [siblingPath, List.getLast?_concat]
  dsimp only
  rw [withFileName, List.dropLast_concat, sibling]

theorem apart_sibling (parent : Path) (base suffix : String) :
    Apart (parent ++ [base]) (sibling parent base suffix) := by
  refine apart_concat fun h => ?_
  have hlength := congrArg String.length h
  simp only [String.length_append] at hlength
  have hdot : ("." : String).length = 1 := by decide
  omega

theorem apart_siblings (parent : Path) (base : String) {a b : String} (h : a ≠ b) :
    Apart (sibling parent base a) (sibling parent base b) := by
  refine apart_concat fun heq => h ?_
  have hlist := congrArg String.toList heq
  simp only [String.toList_append] at hlist
  exact String.toList_inj.1 (List.append_cancel_left hlist)

theorem isName_lock {base : String} (h : isName base = true) :
    isName (base ++ "." ++ "lock") = true := by
  obtain ⟨-, -, -, hslash, hnul⟩ := isName_iff.1 h
  have hlist : (base ++ "." ++ "lock").toList = base.toList ++ ['.', 'l', 'o', 'c', 'k'] := by
    simp [String.toList_append]
  rw [isName_iff, hlist]
  refine ⟨by simp, fun h => ?_, fun h => ?_, by simp [hslash], ?_⟩
  · have hlength := congrArg List.length h
    simp at hlength
  · have hlength := congrArg List.length h
    simp at hlength
  · simp [hnul]

/-! ## Where the files are -/

/-- The backup root is apart from the data root and from what the provider keeps next to it. -/
structure Separate (provider : FileStorageProvider) : Prop where
  root : Apart provider.backupPath provider.storagePath
  siblings : ∀ suffix ∈ ["lock", "restore.pending", "restore.previous"], ∀ path,
    siblingPath provider.storagePath suffix = .ok path → Apart provider.backupPath path

structure Layout (provider : FileStorageProvider) (parent : Path) (base : String) : Prop where
  storage : provider.storagePath = parent ++ [base]
  root : Apart provider.backupPath (parent ++ [base])
  lock : Apart provider.backupPath (sibling parent base "lock")
  pending : Apart provider.backupPath (sibling parent base "restore.pending")
  previous : Apart provider.backupPath (sibling parent base "restore.previous")

theorem Separate.layout {provider : FileStorageProvider} {parent : Path} {base : String}
    (h : Separate provider) (hp : provider.storagePath = parent ++ [base]) :
    Layout provider parent base := by
  have hsibling (suffix : String)
      (hmem : suffix ∈ ["lock", "restore.pending", "restore.previous"]) :
      Apart provider.backupPath (sibling parent base suffix) :=
    h.siblings suffix hmem _ (hp ▸ siblingPath_concat parent base suffix)
  exact ⟨hp, hp ▸ h.root, hsibling _ (by simp), hsibling _ (by simp), hsibling _ (by simp)⟩

/-- The files are below the data root, and the lock can be taken. -/
structure Held (parent : Path) (base : String) (files : Path → Option Bytes) (d : Disk) : Prop where
  holds : Holds files (parent ++ [base]) d
  lock : d.get (sibling parent base "lock") ≠ some .dir

/-- There is no data root, and the files wait in the pending root. -/
structure Parked (parent : Path) (base : String) (backup : Path) (files : Path → Option Bytes)
    (d : Disk) : Prop where
  absent : d.get (parent ++ [base]) = none
  holds : Holds files (sibling parent base "restore.pending") d
  backup : d.get backup = some .dir
  lock : d.get (sibling parent base "lock") ≠ some .dir
  name : isName base = true

def Safe (parent : Path) (base : String) (backup : Path) (files : Path → Option Bytes)
    (d : Disk) : Prop :=
  Held parent base files d ∨ Parked parent base backup files d

section Lemmas

variable {provider : FileStorageProvider} {parent : Path} {base : String} {backup : Path}
  {files : Path → Option Bytes} {d t : Disk}

theorem Held.parent_dir (h : Held parent base files d) : d.get parent = some .dir :=
  Disk.get_of_append h.holds.dir

theorem Held.name (h : Held parent base files d) : isName base = true :=
  Disk.isName_of_get h.holds.dir base (by simp)

theorem Parked.parent_dir (h : Parked parent base backup files d) : d.get parent = some .dir :=
  Disk.get_of_append h.holds.dir

variable {region made : Set Path}

theorem Held.confined (h : Held parent base files d) (hdt : Disk.Confined region made d t)
    (hroot : ∀ q ∈ below (parent ++ [base]), q ∉ region)
    (hlock : sibling parent base "lock" ∉ region) (hmade : sibling parent base "lock" ∉ made) :
    Held parent base files t where
  holds := h.holds.confined hdt hroot
  lock := by
    rw [hdt.get_eq hlock hmade]
    exact h.lock

variable {α : Type}

theorem keeps_held {m : StorageProg α} (h : Prog.Within region made m)
    (hroot : ∀ q ∈ below (parent ++ [base]), q ∉ region)
    (hlock : sibling parent base "lock" ∉ region) (hmade : sibling parent base "lock" ∉ made) :
    Prog.Keeps (Held parent base files) m := fun d hd =>
  Prog.wp_mono (h.wp d) (fun _ ht => hd.confined ht hroot hlock hmade)
    fun _ _ ht => hd.confined ht hroot hlock hmade

/-! ## The lock -/

theorem openCreate_lock (hparent : d.get parent = some .dir) (hname : isName base = true)
    (hlock : d.get (sibling parent base "lock") ≠ some .dir) :
    ∃ t, d.openCreate (sibling parent base "lock") = .ok t := by
  unfold Disk.openCreate
  cases hget : d.get (sibling parent base "lock") with
  | some n =>
    rw [Disk.stat_of_get hget]
    cases n with
    | dir => exact absurd hget hlock
    | file content => exact ⟨d, rfl⟩
  | none =>
    have hlockName := isName_lock hname
    rw [sibling, Disk.stat_missing hparent hlockName hget]
    exact Disk.createNew_ok (Disk.free_concat hparent hlockName hget)

theorem wp_acquireOperationLock (hp : provider.storagePath = parent ++ [base])
    (hparent : d.get parent = some .dir) (hname : isName base = true)
    (hlock : d.get (sibling parent base "lock") ≠ some .dir) {C : Disk → Prop}
    {Q : StorageResult Unit → Disk → Prop}
    (h : ∀ t b, Disk.Confined (below (sibling parent base "lock")) ∅ d t →
      t.get (sibling parent base "lock") = some (.file b) → C t ∧ Q (.ok ()) t) :
    provider.acquireOperationLock.wp C Q d := by
  rw [FileStorageProvider.acquireOperationLock, hp, siblingPath_concat, Prog.wp_bind, Prog.wp_read]
  refine wp_io (fun t ht => ?_) fun ⟨i, hi⟩ => ?_
  · obtain ⟨b, hfile⟩ := (Disk.get_openCreate ht).1
    exact h t b (Disk.confined_openCreate ht) hfile
  · obtain ⟨t, ht⟩ := openCreate_lock hparent hname hlock
    rw [ht] at hi
    simp at hi

theorem Held.locked (h : Held parent base files d) {b : Bytes}
    (hdt : Disk.Confined (below (sibling parent base "lock")) ∅ d t)
    (hlock : t.get (sibling parent base "lock") = some (.file b)) : Held parent base files t where
  holds := h.holds.confined hdt fun _ hq => (apart_sibling parent base "lock").not_mem_below hq
  lock := by simp [hlock]

theorem wp_withStorageLock {operation : StorageProg α} {C : Disk → Prop}
    {Q : StorageResult α → Disk → Prop} (hp : provider.storagePath = parent ++ [base])
    (hd : Held parent base files d)
    (h : ∀ t b, Held parent base files t → t.get (sibling parent base "lock") = some (.file b) →
      Disk.Confined (below (sibling parent base "lock")) ∅ d t → C t ∧ operation.wp C Q t) :
    (provider.withStorageLock operation).wp C Q d := by
  rw [FileStorageProvider.withStorageLock, Prog.wp_bind]
  refine wp_acquireOperationLock hp hd.parent_dir hd.name hd.lock fun t b hdt hfile => ?_
  exact h t b (hd.locked hdt hfile) hfile hdt

theorem keeps_withStorageLock {operation : StorageProg α}
    (hp : provider.storagePath = parent ++ [base])
    (h : Prog.Keeps (Held parent base files) operation) :
    Prog.Keeps (Held parent base files) (provider.withStorageLock operation) := fun _ hd =>
  wp_withStorageLock hp hd fun t _ ht _ _ => ⟨ht, h t ht⟩

/-! ## Recovery -/

theorem realDirectoryExists_of_dir {p : Path} (h : d.get p = some .dir) :
    realDirectoryExists p d = .ok true := by
  rw [realDirectoryExists, pathExistsNoFollow, Disk.stat_of_get h]
  dsimp only
  rw [ensureRealDirectory_eq_ok.2 h]

theorem realDirectoryExists_missing {p : Path} {c : String} (hp : d.get p = some .dir)
    (hc : isName c = true) (h : d.get (p ++ [c]) = none) :
    realDirectoryExists (p ++ [c]) d = .ok false := by
  rw [realDirectoryExists, pathExistsNoFollow, Disk.stat_missing hp hc h]

theorem within_discard (provider : FileStorageProvider) (leftover : Path) :
    Prog.Within (below leftover) ∅ (provider.discard leftover) := by
  refine (Prog.within_read _).bind fun present => ?_
  split
  · refine (Prog.within_read _).bind fun stale => ?_
    split
    · exact within_removeDirAll _ _
    · exact Prog.within_pure _
  · exact Prog.within_pure _

theorem within_settle (provider : FileStorageProvider) :
    Prog.Within ∅ ∅ provider.settle := by
  refine (Prog.within_read _).bind fun present => ?_
  split
  · exact Prog.within_read _
  · exact Prog.within_pure _

theorem keeps_below_sibling {m : StorageProg α} {suffix : String} (hsuffix : suffix ≠ "lock")
    (h : Prog.Within (below (sibling parent base suffix)) ∅ m) :
    Prog.Keeps (Held parent base files) m :=
  keeps_held h (fun _ hq => (apart_sibling parent base suffix).not_mem_below hq)
    ((apart_siblings parent base hsuffix).symm.not_mem_below (self_mem_below _)) (Set.notMem_empty _)

theorem keeps_discards (provider : FileStorageProvider) :
    Prog.Keeps (Held parent base files) (do
      provider.discard (sibling parent base "restore.pending")
      provider.discard (sibling parent base "restore.previous")
      provider.settle) :=
  Prog.keeps_bind (keeps_below_sibling (by decide) (within_discard _ _)) fun _ =>
    Prog.keeps_bind (keeps_below_sibling (by decide) (within_discard _ _)) fun _ =>
      keeps_held (within_settle provider) (fun _ _ => Set.notMem_empty _) (Set.notMem_empty _)
        (Set.notMem_empty _)

theorem recoverRestoreLocked_eq (hp : provider.storagePath = parent ++ [base]) :
    provider.recoverRestoreLocked = (do
      provider.promote (sibling parent base "restore.pending")
        (sibling parent base "restore.previous")
      provider.discard (sibling parent base "restore.pending")
      provider.discard (sibling parent base "restore.previous")
      provider.settle) := by
  rw [FileStorageProvider.recoverRestoreLocked, FileStorageProvider.restorePendingPath,
    FileStorageProvider.restorePreviousPath, hp, siblingPath_concat, siblingPath_concat]
  rfl

theorem keeps_promote (hp : provider.storagePath = parent ++ [base]) (pending previous : Path) :
    Prog.Keeps (Held parent base files) (provider.promote pending previous) := by
  intro d hd
  rw [FileStorageProvider.promote, hp, Prog.wp_bind, Prog.wp_read,
    realDirectoryExists_of_dir hd.holds.dir]
  dsimp only
  rw [if_pos rfl, Prog.wp_pure]
  exact hd

/-- Without a data root, the pending root is put in its place. -/
theorem wp_promote (hp : provider.storagePath = parent ++ [base])
    (hd : Parked parent base backup files d) (previous : Path) :
    (provider.promote (sibling parent base "restore.pending") previous).wp
      (Held parent base files) (fun r t => r = .ok () ∧ Held parent base files t) d := by
  rw [FileStorageProvider.promote, hp, Prog.wp_bind, Prog.wp_read,
    realDirectoryExists_missing hd.parent_dir hd.name hd.absent]
  dsimp only
  rw [if_neg Bool.false_ne_true, Prog.wp_bind, Prog.wp_read,
    realDirectoryExists_of_dir hd.holds.dir]
  dsimp only
  rw [if_pos rfl]
  have hapart := apart_sibling parent base "restore.pending"
  have hne : sibling parent base "restore.pending" ≠ parent ++ [base] := by
    intro h
    exact hapart.1 (h ▸ List.prefix_refl _)
  refine wp_io (fun t ht => ?_) fun ⟨i, hi⟩ => ?_
  · have hheld : Held parent base files t := by
      refine ⟨hd.holds.renamed hne ht, ?_⟩
      have hlock : sibling parent base "lock" ∉
          below (sibling parent base "restore.pending") ∪ below (parent ++ [base]) := by
        rw [Set.mem_union, not_or]
        exact ⟨(apart_siblings parent base (by decide)).not_mem_below (self_mem_below _),
          (apart_sibling parent base "lock").symm.not_mem_below (self_mem_below _)⟩
      rw [(Disk.confined_rename ht hne).get_eq hlock (Set.notMem_empty _)]
      exact hd.lock
    exact ⟨hheld, rfl, hheld⟩
  · obtain ⟨t, ht⟩ := Disk.rename_ok hd.holds.dir (by simp [sibling]) hd.parent_dir hd.name
      hd.absent hapart.2
    rw [ht] at hi
    simp at hi

theorem keeps_recoverRestoreLocked (hp : provider.storagePath = parent ++ [base]) :
    Prog.Keeps (Held parent base files) provider.recoverRestoreLocked := by
  rw [recoverRestoreLocked_eq hp]
  exact Prog.keeps_bind (keeps_promote hp _ _) fun _ => keeps_discards provider

theorem wp_recoverRestoreLocked (hp : provider.storagePath = parent ++ [base])
    (hd : Parked parent base backup files d) :
    provider.recoverRestoreLocked.wp (Held parent base files) (fun _ t => Held parent base files t)
      d := by
  rw [recoverRestoreLocked_eq hp, Prog.wp_bind]
  refine Prog.wp_mono (wp_promote hp hd _) (fun _ h => h) ?_
  rintro r t ⟨rfl, ht⟩
  exact keeps_discards provider t ht

/-! ## Opening -/

theorem keeps_createDirAll {path : Path} (e : StorageError)
    (hlock : ¬ sibling parent base "lock" <+: path) :
    Prog.Keeps (Held parent base files) (createDirAll path e) :=
  keeps_held (within_createDirAll path e) (fun _ _ => Set.notMem_empty _) (Set.notMem_empty _) hlock

theorem keeps_createRealDirectoryAll {path : Path} (hlock : ¬ sibling parent base "lock" <+: path) :
    Prog.Keeps (Held parent base files) (createRealDirectoryAll path) :=
  keeps_held (within_createRealDirectoryAll path) (fun _ _ => Set.notMem_empty _)
    (Set.notMem_empty _) hlock

theorem not_lock_parent (parent : Path) (base : String) :
    ¬ sibling parent base "lock" <+: parent := by
  intro h
  have hlength := h.length_le
  simp [sibling] at hlength

theorem keeps_createDirs (hl : Layout provider parent base) :
    Prog.Keeps (Held parent base files) provider.createDirs := by
  rw [FileStorageProvider.createDirs, hl.storage, parentPath, List.dropLast_concat]
  exact Prog.keeps_bind (keeps_createDirAll _ (not_lock_parent parent base)) fun _ =>
    Prog.keeps_bind (keeps_createRealDirectoryAll hl.lock.2) fun _ =>
      Prog.keeps_bind (Prog.keeps_read _) fun _ =>
        Prog.keeps_bind (keeps_withStorageLock hl.storage (keeps_recoverRestoreLocked hl.storage))
          fun _ => keeps_createRealDirectoryAll (apart_sibling parent base "lock").2

theorem Parked.locked (h : Parked parent base backup files d) {b : Bytes}
    (hbackup : Apart backup (sibling parent base "lock"))
    (hdt : Disk.Confined (below (sibling parent base "lock")) ∅ d t)
    (hlock : t.get (sibling parent base "lock") = some (.file b)) :
    Parked parent base backup files t where
  absent := by
    rw [hdt.get_eq ((apart_sibling parent base "lock").not_mem_below (self_mem_below _))
      (Set.notMem_empty _)]
    exact h.absent
  holds := h.holds.confined hdt fun _ hq =>
    (apart_siblings parent base (by decide)).not_mem_below hq
  backup := hdt.get_of_some (hbackup.not_mem_below (self_mem_below _)) h.backup
  lock := by simp [hlock]
  name := h.name

/-- **Opening** a provider brings the files back below the data root. -/
theorem wp_createDirs (hl : Layout provider parent base)
    (hd : Parked parent base provider.backupPath files d) :
    provider.createDirs.wp (Safe parent base provider.backupPath files)
      (fun _ t => Held parent base files t) d := by
  have hcheck : provider.checkStoragePath d = .ok () := by
    rw [FileStorageProvider.checkStoragePath, hl.storage, pathExistsNoFollow,
      Disk.stat_missing hd.parent_dir hd.name hd.absent]
    rfl
  rw [FileStorageProvider.createDirs, Prog.wp_bind, hl.storage, parentPath, List.dropLast_concat]
  refine createDirAll_present hd.parent_dir (.inr hd) ?_
  dsimp only
  rw [Prog.wp_bind]
  refine createRealDirectoryAll_present hd.backup ?_
  dsimp only
  rw [Prog.wp_bind, Prog.wp_read, hcheck]
  dsimp only
  rw [Prog.wp_bind, FileStorageProvider.recoverSnapshotRestore,
    FileStorageProvider.withStorageLock, Prog.wp_bind]
  refine wp_acquireOperationLock hl.storage hd.parent_dir hd.name hd.lock fun t b hdt hfile => ?_
  have ht := hd.locked hl.lock hdt hfile
  refine ⟨.inr ht, ?_⟩
  refine Prog.wp_mono (wp_recoverRestoreLocked hl.storage ht) (fun _ h => .inl h) ?_
  rintro (e | _) u hu
  · exact hu
  · have hkeep : Prog.Keeps (Held parent base files) (createRealDirectoryAll (parent ++ [base])) :=
      keeps_createRealDirectoryAll (apart_sibling parent base "lock").2
    exact Prog.wp_mono (hkeep u hu) (fun _ h => .inl h) fun _ _ h => h

/-! ## The other operations -/

/-- Looking under the lock. -/
def look {α : Type} (provider : FileStorageProvider) (path : String)
    (f : Path → Disk → StorageResult α) : StorageProg α := do
  let _ ← Prog.read (provider.resolveStorage path)
  provider.withStorageLock do
    let full ← Prog.read (provider.resolveStorage path)
    Prog.read (f full)

theorem keeps_look (hp : provider.storagePath = parent ++ [base]) (path : String)
    (f : Path → Disk → StorageResult α) :
    Prog.Keeps (Held parent base files) (look provider path f) :=
  Prog.keeps_bind (Prog.keeps_read _) fun _ => keeps_withStorageLock hp
    (Prog.keeps_bind (Prog.keeps_read _) fun _ => Prog.keeps_read _)

theorem wp_look_parked (hl : Layout provider parent base)
    (hd : Parked parent base provider.backupPath files d) (path : String)
    (f : Path → Disk → StorageResult α) :
    (look provider path f).wp (fun _ => True)
      (fun _ t => Parked parent base provider.backupPath files t) d := by
  rw [look, Prog.wp_read_bind]
  refine ⟨fun _ _ => ?_, fun _ _ => hd⟩
  rw [FileStorageProvider.withStorageLock, Prog.wp_bind]
  refine wp_acquireOperationLock hl.storage hd.parent_dir hd.name hd.lock fun t b hdt hfile => ?_
  have ht := hd.locked hl.lock hdt hfile
  refine ⟨trivial, ?_⟩
  dsimp only
  rw [Prog.wp_read_bind]
  refine ⟨fun _ _ => ?_, fun _ _ => ht⟩
  rw [Prog.wp_read]
  exact ht

/-- What is below the data root is read. -/
theorem wp_look {α : Type} (hp : provider.storagePath = parent ++ [base])
    (hd : Held parent base files d) {path : String} {rel : Path} {content : Bytes}
    (hpath : relativeNames path = some rel) (hrel : files rel = some content)
    (f : Path → Disk → StorageResult α) :
    (look provider path f).wp (fun _ => True) (fun r t =>
      t.get (parent ++ [base] ++ rel) = some (.file content) ∧
        r = f (parent ++ [base] ++ rel) t) d := by
  have hresolve {t : Disk} (ht : Held parent base files t) :
      provider.resolveStorage path t = .ok (parent ++ [base] ++ rel) := by
    rw [FileStorageProvider.resolveStorage, hp]
    exact resolveUnderRoot_of_get hpath ht.holds.dir (ht.holds.file rel content hrel)
  rw [look, Prog.wp_bind, Prog.wp_read, hresolve hd]
  refine wp_withStorageLock hp hd fun t b ht _ _ => ⟨trivial, ?_⟩
  rw [Prog.wp_bind, Prog.wp_read, hresolve ht]
  dsimp only
  rw [Prog.wp_read]
  exact ⟨ht.holds.file rel content hrel, rfl⟩

/-- A write replaces one file, if any. -/
theorem wp_writeBytes (hp : provider.storagePath = parent ++ [base]) (hd : Held parent base files d)
    (path : String) (bytes : Bytes) (stamp : String) :
    (provider.writeBytes path bytes stamp).wp (fun _ => True) (fun r t =>
      (r ≠ .ok () → Held parent base files t) ∧ ∀ names, relativeNames path = some names →
        Held parent base (Function.update files names none) t) d := by
  have hfewer {t : Disk} (ht : Held parent base files t) (names : Path) :
      Held parent base (Function.update files names none) t := by
    refine ⟨⟨ht.holds.dir, fun rel content hrel => ht.holds.file rel content ?_⟩, ht.lock⟩
    rw [Function.update_apply] at hrel
    split at hrel
    · simp at hrel
    · exact hrel
  have hsame {t : Disk} (ht : Held parent base files t) (r : StorageResult Unit) :
      (r ≠ .ok () → Held parent base files t) ∧ ∀ names, relativeNames path = some names →
        Held parent base (Function.update files names none) t :=
    ⟨fun _ => ht, fun names _ => hfewer ht names⟩
  rw [FileStorageProvider.writeBytes, Prog.wp_read_bind]
  refine ⟨fun _ _ => ?_, fun e _ => hsame hd _⟩
  refine wp_withStorageLock hp hd fun t b ht hfile _ => ⟨trivial, ?_⟩
  rw [Prog.wp_read_bind]
  refine ⟨fun full hfull => ?_, fun e _ => hsame ht _⟩
  rw [Prog.wp_bind]
  refine Prog.wp_mono ((within_createDirAll (parentPath full) _).wp t) (fun _ _ => trivial) ?_
  intro r u hu
  have hheld : Held parent base files u ∧ u.get (sibling parent base "lock") = some (.file b) := by
    have hlock := hu.get_of_some (Set.notMem_empty _) hfile
    exact ⟨⟨ht.holds.confined hu fun _ _ => Set.notMem_empty _, by simp [hlock]⟩, hlock⟩
  cases r with
  | error e => exact hsame hheld.1 _
  | ok _ =>
    dsimp only
    rw [Prog.wp_read_bind]
    refine ⟨fun full' hfull' => ?_, fun e _ => hsame hheld.1 _⟩
    obtain ⟨names, hnames, rfl⟩ := resolveUnderRoot_eq_ok hfull'
    rw [hp]
    refine Prog.wp_mono (wp_writeAtomicFile tmpPathFor_ne) (fun _ _ => trivial) ?_
    rintro r v ⟨hkept, hall⟩
    have hlock : v.get (sibling parent base "lock") = some (.file b) := by
      refine hkept _ _ hheld.2 (.inl fun heq => ?_)
      exact (apart_sibling parent base "lock").1 (heq ▸ List.prefix_append _ _)
    refine ⟨fun hr => ⟨⟨?_, fun rel content hrel => ?_⟩, by simp [hlock]⟩,
      fun names' hnames' => ⟨⟨?_, fun rel content hrel => ?_⟩, by simp [hlock]⟩⟩
    · exact hall hr _ _ hheld.1.holds.dir
    · exact hall hr _ _ (hheld.1.holds.file rel content hrel)
    · exact hkept _ _ hheld.1.holds.dir (.inr rfl)
    · obtain rfl := Option.some.inj (hnames.symm.trans hnames')
      rw [Function.update_apply] at hrel
      split at hrel
      · simp at hrel
      · rename_i hother
        refine hkept _ _ (hheld.1.holds.file rel content hrel) (.inl fun heq => hother ?_)
        exact List.append_cancel_left heq

/-! ## What opening leaves alone -/

/-- The data root and what is kept next to it. -/
def around (parent : Path) (base : String) : Set Path :=
  {q | parent ++ [base] <+: q ∨ ∃ suffix ∈ ["lock", "restore.pending", "restore.previous"],
    sibling parent base suffix <+: q}

theorem below_root_around : below (parent ++ [base]) ⊆ around parent base := fun _ hq => .inl hq

theorem below_sibling_around {suffix : String}
    (h : suffix ∈ ["lock", "restore.pending", "restore.previous"]) :
    below (sibling parent base suffix) ⊆ around parent base :=
  fun _ hq => .inr ⟨suffix, h, hq⟩

theorem Layout.not_around (hl : Layout provider parent base) {q : Path}
    (hq : q ∈ below provider.backupPath) : q ∉ around parent base := by
  rintro (hroot | ⟨suffix, hsuffix, hin⟩)
  · exact hl.root.not_mem_below hq hroot
  · simp only [List.mem_cons, List.not_mem_nil, or_false] at hsuffix
    rcases hsuffix with rfl | rfl | rfl
    · exact hl.lock.not_mem_below hq hin
    · exact hl.pending.not_mem_below hq hin
    · exact hl.previous.not_mem_below hq hin

theorem within_promote (hp : provider.storagePath = parent ++ [base]) :
    Prog.Within (around parent base) ∅ (provider.promote (sibling parent base "restore.pending")
      (sibling parent base "restore.previous")) := by
  have hrename {suffix : String} (h : suffix ∈ ["lock", "restore.pending", "restore.previous"])
      (e : StorageError) : Prog.Within (around parent base) ∅
        (io (Disk.rename · (sibling parent base suffix) provider.storagePath) e) := by
    refine within_io fun d t ht => ?_
    rw [hp] at ht
    have hne : sibling parent base suffix ≠ parent ++ [base] := by
      intro heq
      exact (apart_sibling parent base suffix).1 (heq ▸ List.prefix_refl _)
    refine (Disk.confined_rename ht hne).mono ?_ (Set.empty_subset _)
    exact Set.union_subset (below_sibling_around h) below_root_around
  refine (Prog.within_read _).bind fun present => ?_
  split
  · exact Prog.within_pure _
  refine (Prog.within_read _).bind fun staged => ?_
  split
  · exact hrename (by simp) _
  refine (Prog.within_read _).bind fun replaced => ?_
  split
  · exact hrename (by simp) _
  · exact Prog.within_pure _

theorem within_recoverRestoreLocked (hp : provider.storagePath = parent ++ [base]) :
    Prog.Within (around parent base) ∅ provider.recoverRestoreLocked := by
  rw [recoverRestoreLocked_eq hp]
  exact (within_promote hp).bind fun _ =>
    ((within_discard _ _).mono (below_sibling_around (by simp)) (Set.empty_subset _)).bind fun _ =>
      ((within_discard _ _).mono (below_sibling_around (by simp)) (Set.empty_subset _)).bind fun _ =>
        (within_settle provider).mono (Set.empty_subset _) (Set.empty_subset _)

theorem within_withStorageLock {operation : StorageProg α} {made : Set Path}
    (hp : provider.storagePath = parent ++ [base])
    (h : Prog.Within (around parent base) made operation) :
    Prog.Within (around parent base) made (provider.withStorageLock operation) := by
  rw [FileStorageProvider.withStorageLock, FileStorageProvider.acquireOperationLock, hp,
    siblingPath_concat]
  refine Prog.Within.bind (Prog.within_read_bind fun _ path hpath => within_io fun d t ht => ?_)
    fun _ => h
  obtain rfl := Except.ok.inj hpath
  exact (Disk.confined_openCreate ht).mono (below_sibling_around (by simp)) (Set.empty_subset _)

/-- Opening makes directories on the way to the roots, and changes what is around the data root. -/
theorem within_createDirs (hp : provider.storagePath = parent ++ [base]) :
    Prog.Within (around parent base) (above provider.backupPath ∪ above (parent ++ [base]))
      provider.createDirs := by
  rw [FileStorageProvider.createDirs, hp, parentPath, List.dropLast_concat]
  have hroot : above (parent ++ [base]) ⊆
      around parent base ∪ (above provider.backupPath ∪ above (parent ++ [base])) :=
    fun _ hq => .inr (.inr hq)
  have hparent : above parent ⊆ above (parent ++ [base]) :=
    fun _ hq => List.IsPrefix.trans hq (List.prefix_append _ _)
  exact ((within_createDirAll _ _).mono (Set.empty_subset _) (hparent.trans hroot)).bind fun _ =>
    ((within_createRealDirectoryAll _).mono (Set.empty_subset _) fun _ hq => .inr (.inl hq)).bind
      fun _ => (Prog.within_read _).bind fun _ =>
        ((within_withStorageLock hp (within_recoverRestoreLocked hp)).mono (Set.Subset.refl _)
          (Set.empty_subset _)).bind fun _ =>
            (within_createRealDirectoryAll _).mono (Set.empty_subset _) hroot

theorem filesBelow_confined {root : Path} (h : Disk.Confined region made d t)
    (hroot : ∀ q ∈ below root, q ∉ region) :
    filesBelow t root = filesBelow d root := by
  funext rel
  refine Option.ext fun content => ?_
  have hrel := hroot _ (append_mem_below root rel)
  rw [filesBelow_eq_some, filesBelow_eq_some]
  exact ⟨h.file_of_get hrel, h.get_of_some hrel⟩

/-- The old files, or those of the pending root, are safe at every moment of the
swap. -/
theorem wp_swapRoots {name : String} {staged : Path → Option Bytes} (hl : Layout provider parent base)
    (hd : Held parent base files d)
    (hstaged : Holds staged (sibling parent base "restore.pending") d)
    (hbackup : d.get provider.backupPath = some .dir) :
    (provider.swapRoots name (sibling parent base "restore.pending")
      (sibling parent base "restore.previous")).wp
      (fun t => Safe parent base provider.backupPath files t ∨
        Safe parent base provider.backupPath staged t)
      (fun _ t => Safe parent base provider.backupPath files t ∨
        Safe parent base provider.backupPath staged t) d := by
  have hprevious := apart_sibling parent base "restore.previous"
  have hpending := apart_sibling parent base "restore.pending"
  have hlock := apart_sibling parent base "lock"
  have hne : parent ++ [base] ≠ sibling parent base "restore.previous" := by
    intro h
    exact hprevious.1 (h ▸ List.prefix_refl _)
  have hne' : sibling parent base "restore.pending" ≠ parent ++ [base] := by
    intro h
    exact hpending.1 (h ▸ List.prefix_refl _)
  rw [FileStorageProvider.swapRoots, hl.storage]
  refine wp_io_bind (fun t ht => ?_) fun _ => .inl (.inl hd)
  have hconf := Disk.confined_rename ht hne
  have hparked : Parked parent base provider.backupPath staged t := by
    refine ⟨?_, hstaged.confined hconf fun q hq => ?_, hconf.get_of_some ?_ hbackup, ?_, hd.name⟩
    · rw [(Disk.get_rename ht hne).2, if_neg hprevious.2, if_pos (List.prefix_refl _)]
    · rw [Set.mem_union, not_or]
      exact ⟨hpending.symm.not_mem_below hq,
        (apart_siblings parent base (by decide)).not_mem_below hq⟩
    · rw [Set.mem_union, not_or]
      exact ⟨hl.root.not_mem_below (self_mem_below _), hl.previous.not_mem_below (self_mem_below _)⟩
    · rw [hconf.get_eq ?_ (Set.notMem_empty _)]
      · exact hd.lock
      · rw [Set.mem_union, not_or]
        exact ⟨hlock.symm.not_mem_below (self_mem_below _),
          (apart_siblings parent base (by decide)).not_mem_below (self_mem_below _)⟩
  have hold : Holds files (sibling parent base "restore.previous") t := hd.holds.renamed hne ht
  have hsafe : Safe parent base provider.backupPath files t ∨
      Safe parent base provider.backupPath staged t := .inr (.inr hparked)
  refine ⟨hsafe, ?_⟩
  rw [Prog.wp_read_bind]
  refine ⟨fun _ _ => ?_, fun _ _ => hsafe⟩
  rw [Prog.wp_bind, Prog.wp_attempt]
  refine wp_io (fun u hu => ?_) fun _ => ?_
  · have hheld : Held parent base staged u := by
      refine ⟨hparked.holds.renamed hne' hu, ?_⟩
      rw [(Disk.confined_rename hu hne').get_eq ?_ (Set.notMem_empty _)]
      · exact hparked.lock
      · rw [Set.mem_union, not_or]
        exact ⟨(apart_siblings parent base (by decide)).not_mem_below (self_mem_below _),
          hlock.symm.not_mem_below (self_mem_below _)⟩
    refine ⟨.inr (.inl hheld), ?_⟩
    dsimp only
    have hrest : Prog.Keeps (Held parent base staged) (do
        Prog.read (fsyncParent (parent ++ [base]) (.backupFailed name))
        removeDirAll (sibling parent base "restore.previous") (.backupFailed name)
        Prog.read (fsyncParent (parent ++ [base]) (.backupFailed name))) :=
      Prog.keeps_bind (Prog.keeps_read _) fun _ => Prog.keeps_bind
        (keeps_below_sibling (by decide) (within_removeDirAll _ _)) fun _ => Prog.keeps_read _
    exact Prog.wp_mono (hrest u hheld) (fun _ h => .inr (.inl h)) fun _ _ h => .inr (.inl h)
  · -- the data root is put back
    dsimp only
    rw [Prog.wp_bind, Prog.wp_attempt]
    refine wp_io (fun u hu => ?_) fun _ => ?_
    · have hheld : Held parent base files u := by
        refine ⟨hold.renamed hne.symm hu, ?_⟩
        rw [(Disk.confined_rename hu hne.symm).get_eq ?_ (Set.notMem_empty _)]
        · exact hparked.lock
        · rw [Set.mem_union, not_or]
          exact ⟨(apart_siblings parent base (by decide)).not_mem_below (self_mem_below _),
            hlock.symm.not_mem_below (self_mem_below _)⟩
      refine ⟨.inl (.inl hheld), ?_⟩
      dsimp only
      rw [Prog.wp_fail]
      exact .inl (.inl hheld)
    · dsimp only
      rw [Prog.wp_fail]
      exact hsafe

end Lemmas

/-! ## Restoring -/

section Restore

variable [Sha256] [ManifestJson] {provider : FileStorageProvider} {parent : Path}
  {base : String} {files : Path → Option Bytes} {d : Disk} {name : String}

def snapshotFiles (provider : FileStorageProvider) (name : String) (d : Disk) (rel : Path) :
    Option Bytes :=
  (relativeNames name).bind fun names =>
    filesBelow d (provider.backupPath ++ names ++ [backupData]) rel

theorem loadVerifiedBackup_eq_ok {root : Path} {manifest : StorageBackupManifestV1}
    (h : provider.loadVerifiedBackup name d = .ok (root, manifest)) :
    ∃ part, relativeNames name = some [part] ∧ root = provider.backupPath ++ [part] ∧
      d.get root = some .dir ∧ verifyManifest name (root ++ [backupData]) manifest d = .ok () := by
  unfold FileStorageProvider.loadVerifiedBackup at h
  cases hname : validateBackupName name with
  | error e => simp [hname, bind, Except.bind] at h
  | ok _ =>
    obtain ⟨part, hpart⟩ := relativeNames_of_backup_name hname
    cases hroot : resolveUnderRoot provider.backupPath name d with
    | error e => simp [hname, hroot, bind, Except.bind] at h
    | ok root' =>
      obtain ⟨names, hnames, rfl⟩ := resolveUnderRoot_eq_ok hroot
      obtain rfl := Option.some.inj (hpart.symm.trans hnames)
      cases htree : rejectSymlinkTree (provider.backupPath ++ [part]) d with
      | error e => simp [hname, hroot, htree, bind, Except.bind] at h
      | ok _ =>
        cases hread : readManifest (provider.backupPath ++ [part]) name d with
        | error e => simp [hname, hroot, htree, hread, bind, Except.bind] at h
        | ok manifest' =>
          cases hverify : verifyManifest name (provider.backupPath ++ [part] ++ [backupData])
              manifest' d with
          | error e =>
            simp only [hname, hroot, htree, hread, hverify, bind, Except.bind, reduceCtorEq] at h
          | ok _ =>
            simp only [hname, hroot, htree, hread, hverify, bind, Except.bind, pure, Except.pure,
              Except.ok.injEq, Prod.mk.injEq] at h
            obtain ⟨rfl, rfl⟩ := h
            refine ⟨part, hpart, rfl, ?_, hverify⟩
            unfold rejectSymlinkTree collectRegularFiles at htree
            split at htree
            · simp at htree
            · rename_i hcollect
              split at hcollect
              · simp at hcollect
              · rename_i entries hentries
                exact (boundedTreeEntries_eq_ok hentries).1

theorem restoreSnapshotLocked_eq (hp : provider.storagePath = parent ++ [base]) :
    provider.restoreSnapshotLocked name = (do
      provider.recoverRestoreLocked
      let (backupRoot, manifest) ← Prog.read (provider.loadVerifiedBackup name)
      copyVerifiedTree (backupRoot ++ [backupData]) (sibling parent base "restore.pending") manifest
      Prog.read (fsyncParent (sibling parent base "restore.pending") (.backupFailed name))
      provider.swapRoots name (sibling parent base "restore.pending")
        (sibling parent base "restore.previous")
      return descriptor manifest) := by
  rw [FileStorageProvider.restoreSnapshotLocked, FileStorageProvider.restorePendingPath,
    FileStorageProvider.restorePreviousPath, hp, siblingPath_concat, siblingPath_concat]
  rfl

theorem wp_restoreSnapshotLocked (hl : Layout provider parent base) (hd : Held parent base files d) :
    (provider.restoreSnapshotLocked name).wp
      (fun t => Safe parent base provider.backupPath files t ∨
        Safe parent base provider.backupPath (snapshotFiles provider name d) t)
      (fun _ t => Safe parent base provider.backupPath files t ∨
        Safe parent base provider.backupPath (snapshotFiles provider name d) t) d := by
  rw [restoreSnapshotLocked_eq hl.storage, Prog.wp_bind]
  have hrecover := Prog.wp_and (keeps_recoverRestoreLocked hl.storage d hd)
    ((within_recoverRestoreLocked hl.storage).wp d)
  refine Prog.wp_mono hrecover (fun t ht => .inl (.inl ht.1)) ?_
  rintro (e | _) t ⟨ht, hdt⟩
  · exact .inl (.inl ht)
  dsimp only
  rw [Prog.wp_read_bind]
  refine ⟨?_, fun _ _ => .inl (.inl ht)⟩
  rintro ⟨root, manifest⟩ hload
  obtain ⟨part, hpart, rfl, hroot, hverify⟩ := loadVerifiedBackup_eq_ok hload
  have hbackup : t.get provider.backupPath = some .dir := Disk.get_of_append hroot
  have hdata : below (provider.backupPath ++ [part] ++ [backupData]) ⊆ below provider.backupPath :=
    (below_append _ _).trans (below_append _ _)
  have hfiles : snapshotFiles provider name d =
      filesBelow t (provider.backupPath ++ [part] ++ [backupData]) := by
    rw [filesBelow_confined hdt fun q hq => hl.not_around (hdata hq)]
    funext rel
    rw [snapshotFiles, hpart, Option.bind_some]
  rw [hfiles]
  have hapart : Apart (provider.backupPath ++ [part] ++ [backupData])
      (sibling parent base "restore.pending") := (hl.pending.append _).append _
  have hcopy := Prog.wp_and (copyVerifiedTree_copies hapart hverify)
    ((within_copyVerifiedTree (provider.backupPath ++ [part] ++ [backupData])
      (sibling parent base "restore.pending") manifest).wp t)
  have hkept {u : Disk} (htu : Disk.Confined (below (sibling parent base "restore.pending"))
      (above (sibling parent base "restore.pending")) t u) : Held parent base files u :=
    ht.confined htu (fun _ hq => (apart_sibling parent base "restore.pending").not_mem_below hq)
      ((apart_siblings parent base (by decide)).not_mem_below (self_mem_below _))
      (apart_siblings parent base (by decide)).1
  dsimp only
  rw [Prog.wp_bind]
  refine Prog.wp_mono hcopy (fun u hu => .inl (.inl (hkept hu.2))) ?_
  rintro (e | _) u ⟨hcopied, htu⟩
  · exact .inl (.inl (hkept htu))
  have hu := hkept htu
  dsimp only
  rw [Prog.wp_read_bind]
  refine ⟨fun _ _ => ?_, fun _ _ => .inl (.inl hu)⟩
  rw [Prog.wp_bind]
  refine Prog.wp_mono (wp_swapRoots hl hu (hcopied rfl)
    (htu.get_of_some (hl.pending.not_mem_below (self_mem_below _)) hbackup)) (fun _ h => h) ?_
  rintro (e | _) v hv
  · exact hv
  · dsimp only
    rw [Prog.wp_pure]
    exact hv

/-- **A restore** keeps the old files safe, or those of the snapshot, at every moment. -/
theorem safe_restore (hl : Layout provider parent base) (hd : Held parent base files d) {t : Disk}
    (ht : t ∈ (provider.restoreSnapshotBackup name).stops d) :
    Safe parent base provider.backupPath files t ∨
      Safe parent base provider.backupPath (snapshotFiles provider name d) t := by
  have hwp : (provider.restoreSnapshotBackup name).wp
      (fun t => Safe parent base provider.backupPath files t ∨
        Safe parent base provider.backupPath (snapshotFiles provider name d) t)
      (fun _ _ => True) d := by
    rw [FileStorageProvider.restoreSnapshotBackup, Prog.wp_bind]
    have hopen := Prog.wp_and (keeps_createDirs hl d hd) ((within_createDirs hl.storage).wp d)
    refine Prog.wp_mono hopen (fun t ht => .inl (.inl ht.1)) ?_
    rintro (e | _) u ⟨hu, hdu⟩
    · trivial
    refine wp_withStorageLock hl.storage hu fun v b hv _ huv => ⟨.inl (.inl hv), ?_⟩
    have hfiles : snapshotFiles provider name d = snapshotFiles provider name v := by
      funext rel
      unfold snapshotFiles
      cases relativeNames name with
      | none => rfl
      | some names =>
        have hbelow : below (provider.backupPath ++ names ++ [backupData]) ⊆
            below provider.backupPath := (below_append _ _).trans (below_append _ _)
        rw [Option.bind_some, Option.bind_some,
          filesBelow_confined huv fun q hq hin =>
            hl.not_around (hbelow hq) (below_sibling_around (by simp) hin),
          filesBelow_confined hdu fun q hq => hl.not_around (hbelow hq)]
    rw [hfiles]
    exact Prog.wp_mono (wp_restoreSnapshotLocked hl hv) (fun _ h => h) fun _ _ _ => trivial
  rcases List.mem_cons.1 ht with rfl | ht
  · exact .inl (.inl hd)
  · exact hwp.1 t ht

end Restore

end AppCore.Storage
