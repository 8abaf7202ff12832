import AppCore.Base.Evaluation
import AppCore.Storage.Recovery

/-!
# After an interrupted restore

Operations of later provider instances, in any order, on what an interrupted restore left.

* `interrupted_restore` — as long as nothing is written while there is no data root, the old files
  or those of the snapshot can be read once the provider was opened, but for the files that were
  written since.

A write that finds no data root makes a new one, and the next `open` takes it for the good one and
removes the others: `interrupted_restore_lost`.
-/

namespace AppCore.Storage

def without (files : Path → Option Bytes) (replaced : List Path) (rel : Path) : Option Bytes :=
  if rel ∈ replaced then none else files rel

theorem without_nil (files : Path → Option Bytes) : without files [] = files := by
  funext rel
  simp [without]

theorem without_append (files : Path → Option Bytes) (a b : List Path) :
    without (without files a) b = without files (a ++ b) := by
  funext rel
  by_cases hb : rel ∈ b
  · simp [without, hb]
  · by_cases ha : rel ∈ a
    · simp [without, ha, hb]
    · simp [without, ha, hb]

theorem without_singleton (files : Path → Option Bytes) (names : Path) :
    without files [names] = Function.update files names none := by
  funext rel
  rw [without, Function.update_apply]
  simp

/-! ## Reading and writing -/

/-- A file can be read. -/
def Readable (provider : FileStorageProvider) (d : Disk) (path : String) (content : Bytes) : Prop :=
  (provider.readBytes path).result d = .ok content

section Reading

variable {provider : FileStorageProvider} {parent : Path} {base : String}
  {files : Path → Option Bytes} {d : Disk}

theorem writeBytes_unresolved {path : String} {e : StorageError}
    (h : provider.resolveStorage path d = .error e) (bytes : Bytes) (stamp : String) :
    provider.writeBytes path bytes stamp d = (.error e, []) := by
  have hwp : (provider.writeBytes path bytes stamp).wp (fun _ => False)
      (fun r _ => r = .error e) d := by
    rw [FileStorageProvider.writeBytes, Prog.wp_bind, Prog.wp_read, h]
  have hvisited : (provider.writeBytes path bytes stamp d).2 = [] :=
    List.eq_nil_iff_forall_not_mem.2 hwp.1
  exact Prod.ext hwp.2 hvisited

theorem readable_of_safe (hl : Layout provider parent base)
    (hd : Safe parent base provider.backupPath files d) {path : String} {rel : Path}
    {content : Bytes} (hpath : relativeNames path = some rel) (hrel : files rel = some content) :
    Readable provider (provider.openProvider.final d) path content := by
  have hopened : Held parent base files (provider.openProvider.final d) := by
    rcases hd with hd | hd
    · exact (keeps_createDirs hl).final hd
    · exact (wp_createDirs hl hd).2
  obtain ⟨hfile, hread⟩ := (wp_look hl.storage hopened hpath hrel
    fun full => readRegularFile full (.repositoryNotFound path)).2
  exact hread.trans (readRegularFile_eq_ok.2 hfile)

/-- What can be read is a file below the data root. -/
theorem held_of_readable {path : String} {content : Bytes}
    (h : Readable provider d path content) :
    ∃ parent base rel, provider.storagePath = parent ++ [base] ∧
      Held parent base (filesBelow d provider.storagePath) d ∧
      relativeNames path = some rel ∧ filesBelow d provider.storagePath rel = some content := by
  have hwp : (provider.readBytes path).wp (fun _ => True) (fun r _ => r = .ok content →
      ∃ parent base rel, provider.storagePath = parent ++ [base] ∧
        Held parent base (filesBelow d provider.storagePath) d ∧
        relativeNames path = some rel ∧
        filesBelow d provider.storagePath rel = some content) d := by
    rw [FileStorageProvider.readBytes, Prog.wp_read_bind]
    refine ⟨fun full hfull => ?_, fun _ _ => by simp⟩
    rw [FileStorageProvider.withStorageLock, FileStorageProvider.acquireOperationLock, Prog.wp_bind,
      Prog.wp_read_bind]
    refine ⟨fun lock hlock => ?_, fun _ _ => by simp⟩
    obtain ⟨parent, base, hp⟩ : ∃ parent base, provider.storagePath = parent ++ [base] := by
      rcases List.eq_nil_or_concat provider.storagePath with h | ⟨parent, base, h⟩
      · simp [siblingPath, h] at hlock
      · exact ⟨parent, base, h.trans List.concat_eq_append⟩
    rw [hp, siblingPath_concat] at hlock
    obtain rfl := Except.ok.inj hlock
    refine wp_io (fun t ht => ⟨trivial, ?_⟩) fun _ => by simp
    dsimp only
    rw [Prog.wp_read_bind]
    refine ⟨fun full' hfull' => ?_, fun _ _ => by simp⟩
    rw [Prog.wp_read]
    intro hread
    obtain ⟨rel, hrel, rfl⟩ := resolveUnderRoot_eq_ok hfull'
    have hfile := readRegularFile_eq_ok.1 hread
    have hconf := Disk.confined_openCreate ht
    have hapart := apart_sibling parent base "lock"
    have hold : d.get (parent ++ [base] ++ rel) = some (.file content) := by
      rw [← hconf.get_eq (hapart.not_mem_below (append_mem_below _ rel)) (Set.notMem_empty _), ← hp]
      exact hfile
    have hroot : d.get (parent ++ [base]) = some .dir := by
      cases rel with
      | nil =>
        -- a file in place of the data root is not resolved
        rw [List.append_nil] at hold
        rw [FileStorageProvider.resolveStorage, resolveUnderRoot, hp,
          Disk.stat_of_get hold] at hfull
        split at hfull <;> simp at hfull
      | cons c r => exact Disk.get_of_append hold
    refine ⟨parent, base, rel, hp, ⟨?_, fun hdir => ?_⟩, hrel, ?_⟩
    · rw [hp]
      exact holds_filesBelow hroot
    · rw [Disk.openCreate, Disk.stat_of_get hdir] at ht
      simp at ht
    · rw [hp]
      exact filesBelow_eq_some.2 hold
  exact hwp.2 h

end Reading

/-! ## Runs -/

section Runs

variable [Sha256] [ManifestJson]

/-- An operation of a provider. -/
inductive Operation where
  | writeBytes (path : String) (bytes : Bytes) (stamp : String)
  | readBytes (path : String)
  | pathExists (path : String)
  | open
  | createDirs
  | recoverSnapshotRestore
  | createSnapshotBackup (name : String) (nowMs : UInt64) (stagingStamp manifestStamp : String)

/-- What an operation does, without its answer. -/
def Operation.prog (provider : FileStorageProvider) : Operation → StorageProg Unit
  | .writeBytes path bytes stamp => provider.writeBytes path bytes stamp
  | .readBytes path => do
      let _ ← provider.readBytes path
  | .pathExists path => do
      let _ ← provider.pathExists path
  | .open => provider.openProvider
  | .createDirs => provider.createDirs
  | .recoverSnapshotRestore => provider.recoverSnapshotRestore
  | .createSnapshotBackup name nowMs stagingStamp manifestStamp => do
      let _ ← provider.createSnapshotBackup name nowMs stagingStamp manifestStamp

/-- The operations one after another. -/
def runOperations (provider : FileStorageProvider) : List Operation → Disk → Disk
  | [], d => d
  | op :: ops, d => runOperations provider ops ((op.prog provider).final d)

def Operation.replaced (provider : FileStorageProvider) (d : Disk) : Operation → Option Path
  | .writeBytes path bytes stamp =>
    if (provider.writeBytes path bytes stamp).result d = .ok () then relativeNames path else none
  | _ => none

def replacedBy (provider : FileStorageProvider) : List Operation → Disk → List Path
  | [], _ => []
  | op :: ops, d =>
    (op.replaced provider d).toList ++ replacedBy provider ops ((op.prog provider).final d)

/-- Nothing is written while there is no data root. -/
def Operation.Recovered (provider : FileStorageProvider) (d : Disk) : Operation → Prop
  | .writeBytes path _ _ =>
    (∃ full, provider.resolveStorage path d = .ok full) → d.get provider.storagePath ≠ none
  | _ => True

/-- None of the operations writes while there is no data root. -/
def WritesRecovered (provider : FileStorageProvider) : List Operation → Disk → Prop
  | [], _ => True
  | op :: ops, d =>
    op.Recovered provider d ∧ WritesRecovered provider ops ((op.prog provider).final d)

/-! ## What is kept -/

section Kept

variable {provider : FileStorageProvider} {parent : Path} {base : String}
  {files : Path → Option Bytes} {d : Disk}

theorem keeps_createSnapshotLocked (hl : Layout provider parent base) (name : String)
    (nowMs : UInt64) (stagingStamp manifestStamp : String) :
    Prog.Keeps (Held parent base files)
      (provider.createSnapshotLocked name nowMs stagingStamp manifestStamp) :=
  keeps_held (within_createSnapshotLocked provider name nowMs stagingStamp manifestStamp)
    (fun _ hq => hl.root.symm.not_mem_below hq) (hl.lock.symm.not_mem_below (self_mem_below _))
    hl.lock.2

/-- With a data root in place, an operation keeps the files but for the one it replaces. -/
theorem held_operation (hl : Layout provider parent base) (hd : Held parent base files d)
    (op : Operation) :
    Held parent base (without files (op.replaced provider d).toList)
      ((op.prog provider).final d) := by
  have hkeeps {m : StorageProg Unit} (h : Prog.Keeps (Held parent base files) m) :
      Held parent base (without files []) (m.final d) := by
    rw [without_nil]
    exact h.final hd
  cases op with
  | writeBytes path bytes stamp =>
    obtain ⟨herror, hok⟩ := (wp_writeBytes hl.storage hd path bytes stamp).2
    rw [Operation.replaced]
    split
    · rename_i hresult
      cases hnames : relativeNames path with
      | none =>
        -- a text that names nothing is not resolved
        have hnot : ∀ full, provider.resolveStorage path d ≠ .ok full := by
          intro full hfull
          obtain ⟨names, hsome, -⟩ := resolveUnderRoot_eq_ok hfull
          rw [hnames] at hsome
          simp at hsome
        cases hresolve : provider.resolveStorage path d with
        | ok full => exact absurd hresolve (hnot full)
        | error e =>
          rw [Prog.result, writeBytes_unresolved hresolve] at hresult
          simp at hresult
      | some names =>
        rw [Option.toList_some, without_singleton]
        exact hok names hnames
    · rename_i hresult
      rw [Option.toList_none, without_nil]
      exact herror hresult
  | readBytes path =>
    exact hkeeps (Prog.keeps_bind (keeps_look hl.storage path _) fun _ => Prog.keeps_pure ())
  | pathExists path =>
    exact hkeeps (Prog.keeps_bind (keeps_look hl.storage path _) fun _ => Prog.keeps_pure ())
  | «open» => exact hkeeps (keeps_createDirs hl)
  | createDirs => exact hkeeps (keeps_createDirs hl)
  | recoverSnapshotRestore =>
    exact hkeeps (keeps_withStorageLock hl.storage (keeps_recoverRestoreLocked hl.storage))
  | createSnapshotBackup name nowMs stagingStamp manifestStamp =>
    have hsnapshot : Prog.Keeps (Held parent base files)
        (provider.createSnapshotBackup name nowMs stagingStamp manifestStamp) :=
      Prog.keeps_bind (keeps_createDirs hl) fun _ => keeps_withStorageLock hl.storage
        (keeps_createSnapshotLocked hl name nowMs stagingStamp manifestStamp)
    exact hkeeps (Prog.keeps_bind hsnapshot fun _ => Prog.keeps_pure ())

/-- Without a data root, an operation that is not a write leaves the pending root or puts it in its
place. -/
theorem safe_operation_parked (hl : Layout provider parent base)
    (hd : Parked parent base provider.backupPath files d) {op : Operation}
    (hop : op.Recovered provider d) :
    Safe parent base provider.backupPath (without files (op.replaced provider d).toList)
      ((op.prog provider).final d) := by
  have hfinal {m : StorageProg Unit}
      (h : m.wp (fun _ => True) (fun _ t => Safe parent base provider.backupPath files t) d) :
      Safe parent base provider.backupPath (without files []) (m.final d) := by
    rw [without_nil]
    exact h.2
  have hopen : provider.createDirs.wp (fun _ => True)
      (fun _ t => Safe parent base provider.backupPath files t) d :=
    Prog.wp_mono (wp_createDirs hl hd) (fun _ _ => trivial) fun _ _ h => .inl h
  cases op with
  | writeBytes path bytes stamp =>
    have habsent : d.get provider.storagePath = none := hl.storage ▸ hd.absent
    cases hresolve : provider.resolveStorage path d with
    | ok full => exact absurd habsent (hop ⟨full, hresolve⟩)
    | error e =>
      have hnothing := writeBytes_unresolved hresolve bytes stamp
      rw [Operation.replaced, if_neg (by simp [Prog.result, hnothing]), Option.toList_none,
        without_nil, Operation.prog, Prog.final, hnothing]
      exact .inr hd
  | readBytes path =>
    refine hfinal (Prog.wp_bind.2 (Prog.wp_mono (wp_look_parked hl hd path _) (fun _ h => h) ?_))
    rintro (e | a) t ht
    · exact .inr ht
    · exact Prog.wp_pure.2 (.inr ht)
  | pathExists path =>
    refine hfinal (Prog.wp_bind.2 (Prog.wp_mono (wp_look_parked hl hd path _) (fun _ h => h) ?_))
    rintro (e | a) t ht
    · exact .inr ht
    · exact Prog.wp_pure.2 (.inr ht)
  | «open» => exact hfinal hopen
  | createDirs => exact hfinal hopen
  | recoverSnapshotRestore =>
    refine hfinal ?_
    rw [Operation.prog, FileStorageProvider.recoverSnapshotRestore,
      FileStorageProvider.withStorageLock, Prog.wp_bind]
    refine wp_acquireOperationLock hl.storage hd.parent_dir hd.name hd.lock fun t b hdt hfile =>
      ⟨trivial, ?_⟩
    exact Prog.wp_mono (wp_recoverRestoreLocked hl.storage (hd.locked hl.lock hdt hfile))
      (fun _ _ => trivial) fun _ _ h => .inl h
  | createSnapshotBackup name nowMs stagingStamp manifestStamp =>
    refine hfinal (Prog.wp_bind.2 (Prog.wp_bind.2 (Prog.wp_mono (wp_createDirs hl hd)
      (fun _ _ => trivial) ?_)))
    rintro (e | _) t ht
    · exact .inl ht
    have hlocked := keeps_withStorageLock hl.storage
      (keeps_createSnapshotLocked hl name nowMs stagingStamp manifestStamp) t ht
    refine Prog.wp_mono hlocked (fun _ _ => trivial) ?_
    rintro (e | a) u hu
    · exact .inl hu
    · exact Prog.wp_pure.2 (.inl hu)

theorem safe_operation (hl : Layout provider parent base)
    (hd : Safe parent base provider.backupPath files d) {op : Operation}
    (hop : op.Recovered provider d) :
    Safe parent base provider.backupPath (without files (op.replaced provider d).toList)
      ((op.prog provider).final d) := by
  rcases hd with hd | hd
  · exact .inl (held_operation hl hd op)
  · exact safe_operation_parked hl hd hop

theorem safe_run (hl : Layout provider parent base) {ops : List Operation}
    (hd : Safe parent base provider.backupPath files d) (hops : WritesRecovered provider ops d) :
    Safe parent base provider.backupPath (without files (replacedBy provider ops d))
      (runOperations provider ops d) := by
  induction ops generalizing files d with
  | nil =>
    rw [replacedBy, without_nil]
    exact hd
  | cons op ops ih =>
    rw [replacedBy, ← without_append]
    exact ih (safe_operation hl hd hops.1) hops.2

end Kept

/-- The old files can be read, or else those of the snapshot, but for the files that were written
since. -/
def Kept (provider : FileStorageProvider) (name : String) (d : Disk) (written : List Path)
    (opened : Disk) : Prop :=
  (∀ path rel content, relativeNames path = some rel → Readable provider d path content →
    rel ∉ written → Readable provider opened path content) ∨
  (∀ path rel content, relativeNames path = some rel →
    snapshotFiles provider name d rel = some content →
    rel ∉ written → Readable provider opened path content)

/-- **After an interrupted restore**, and after any later operations that do not write while there
is no data root, a complete generation of the files can be read once the provider was opened. -/
theorem interrupted_restore (provider : FileStorageProvider) (hseparate : Separate provider)
    (name : String) (d crashed : Disk)
    (hcrashed : crashed ∈ (provider.restoreSnapshotBackup name).stops d) (ops : List Operation)
    (hops : WritesRecovered provider ops crashed) :
    Kept provider name d (replacedBy provider ops crashed)
      (provider.openProvider.final (runOperations provider ops crashed)) := by
  by_cases hany : ∃ path content, Readable provider d path content
  · obtain ⟨path, content, hread⟩ := hany
    obtain ⟨parent, base, -, hp, hd, -⟩ := held_of_readable hread
    have hl := hseparate.layout hp
    have hrest {files : Path → Option Bytes}
        (hsafe : Safe parent base provider.backupPath files crashed) (path : String) (rel : Path)
        (content : Bytes) (hpath : relativeNames path = some rel) (hrel : files rel = some content)
        (hwritten : rel ∉ replacedBy provider ops crashed) :
        Readable provider (provider.openProvider.final (runOperations provider ops crashed)) path
          content := by
      refine readable_of_safe hl (safe_run hl hsafe hops) hpath ?_
      rw [without, if_neg hwritten, hrel]
    rcases safe_restore hl hd hcrashed with hsafe | hsafe
    · refine .inl fun path rel content hpath hread hwritten => ?_
      obtain ⟨-, -, rel', -, -, hpath', hrel⟩ := held_of_readable hread
      obtain rfl := Option.some.inj (hpath.symm.trans hpath')
      exact hrest hsafe path rel content hpath hrel hwritten
    · exact .inr (hrest hsafe)
  · exact .inl fun path rel content _ hread => absurd ⟨path, content, hread⟩ hany

end Runs

/-! ## A restore that stops between its renames -/

/-- A provider with its roots next to each other. -/
def sampleProvider : FileStorageProvider := ⟨["srv", "data"], ["srv", "backups"]⟩

/-- A snapshot of one file. -/
def sampleManifest : StorageBackupManifestV1 :=
  ⟨storageBackupFormatV1, "s", 1, [⟨"a.txt", 1,
    "dbc1b4c900ffe48d575b5da5c638040125f65db0fe3e24494b76ea986457d986"⟩]⟩

/-- The JSON of the entries of a manifest. -/
def entryLines (files : List StorageBackupManifestFileV1) : String :=
  ",\n".intercalate (files.map fun file =>
    "    \x7b\n      \"path\": \"" ++ file.path ++ "\",\n      \"size\": " ++
      String.ofList (decimal file.size.toNat) ++ ",\n      \"sha256\": \"" ++ file.sha256 ++
        "\"\n    \x7d")

/-- The JSON of manifests with plain names and at least one file, and its reading for one of them. -/
@[reducible] def plainManifests : ManifestJson :=
  let encode (manifest : StorageBackupManifestV1) : Bytes := strBytes
    ("\x7b\n  \"format\": \"" ++ manifest.format ++ "\",\n  \"name\": \"" ++ manifest.name ++
      "\",\n  \"created_at_ms\": " ++ String.ofList (decimal manifest.createdAtMs.toNat) ++
      ",\n  \"files\": [\n" ++ entryLines manifest.files ++ "\n  ]\n\x7d")
  ⟨encode, fun bytes => if bytes = encode sampleManifest then some sampleManifest else none⟩

/-- The nodes of a disk with the snapshot and a data root that has changed since. -/
def sampleNodes : List (Path × Node) :=
  [([], .dir), (["srv"], .dir), (["srv", "data"], .dir), (["srv", "backups"], .dir),
    (["srv", "backups", "s"], .dir), (["srv", "backups", "s", "data"], .dir),
    (["srv", "data", "a.txt"], .file [1]), (["srv", "backups", "s", "data", "a.txt"], .file [2]),
    (["srv", "backups", "s", "manifest.json"], .file (plainManifests.encode sampleManifest))]

def sampleDisk : Disk where
  nodes := sampleNodes
  nodup := by decide
  root := by decide
  parent := by
    have hparents : ∀ e ∈ sampleNodes, e.1 ≠ [] → (e.1.dropLast, Node.dir) ∈ sampleNodes := by
      decide
    intro p c n h
    have hparent := hparents _ h (by simp)
    rwa [List.dropLast_concat] at hparent
  names := by
    have hnames : ∀ e ∈ sampleNodes, ∀ c ∈ e.1, isName c = true := by decide
    exact fun p n h => hnames _ h

/-- A restore that stopped between its two renames. -/
def sampleCrashed : Disk :=
  ((@FileStorageProvider.restoreSnapshotBackup plainManifests Sha256.fips sampleProvider
    "s").stops sampleDisk).getD 9 sampleDisk

theorem sampleCrashed_mem : sampleCrashed ∈
    (@FileStorageProvider.restoreSnapshotBackup plainManifests Sha256.fips sampleProvider
      "s").stops sampleDisk := by
  rw [sampleCrashed, List.getD_eq_getElem?_getD]
  cases h : ((@FileStorageProvider.restoreSnapshotBackup plainManifests Sha256.fips sampleProvider
      "s").stops sampleDisk)[9]? with
  | none => exact List.mem_cons_self
  | some d => exact List.mem_of_getElem? h

instance (provider : FileStorageProvider) (d : Disk) (path : String) (content : Bytes) :
    Decidable (Readable provider d path content) :=
  inferInstanceAs (Decidable (_ = _))

theorem separate_sample : Separate sampleProvider where
  root := by decide
  siblings := by
    intro suffix hsuffix path hpath
    have hpath : siblingPath (["srv"] ++ ["data"]) suffix = .ok path := hpath
    rw [siblingPath_concat] at hpath
    obtain rfl := Except.ok.inj hpath
    revert suffix
    decide

/-- Opening the provider first, and writing then. -/
theorem interrupted_restore_opened :
    letI := Sha256.fips
    letI := plainManifests
    let ops := [Operation.open, .writeBytes "b.txt" [3] "1_ThreadId1_0"]
    Kept sampleProvider "s" sampleDisk (replacedBy sampleProvider ops sampleCrashed)
      (sampleProvider.openProvider.final (runOperations sampleProvider ops sampleCrashed)) := by
  refine @interrupted_restore Sha256.fips plainManifests sampleProvider separate_sample "s"
    sampleDisk sampleCrashed sampleCrashed_mem _ ⟨trivial, fun _ => ?_, trivial⟩
  simp +instances only [sampleCrashed, sampleDisk, sampleNodes, plainManifests,
    strBytes_eq_toByteArray]
  decide +kernel

/-- **Writing first**, before the provider was opened, loses both generations. -/
theorem interrupted_restore_lost :
    letI := Sha256.fips
    letI := plainManifests
    let ops := [Operation.writeBytes "b.txt" [3] "1_ThreadId1_0"]
    Separate sampleProvider ∧
    sampleCrashed ∈ (sampleProvider.restoreSnapshotBackup "s").stops sampleDisk ∧
    ¬ Kept sampleProvider "s" sampleDisk (replacedBy sampleProvider ops sampleCrashed)
      (sampleProvider.openProvider.final (runOperations sampleProvider ops sampleCrashed)) := by
  let _ := Sha256.fips
  let _ := plainManifests
  intro ops
  have hwritten : ["a.txt"] ∉ replacedBy sampleProvider ops sampleCrashed := by
    simp +instances +zetaDelta only [sampleCrashed, sampleDisk, sampleNodes, plainManifests,
      strBytes_eq_toByteArray]
    decide +kernel
  have hlost : ∀ content ∈ [[1], [2]], ¬ Readable sampleProvider
      (sampleProvider.openProvider.final (runOperations sampleProvider ops sampleCrashed)) "a.txt"
      content := by
    simp +instances +zetaDelta only [sampleCrashed, sampleDisk, sampleNodes, plainManifests,
      strBytes_eq_toByteArray]
    decide +kernel
  refine ⟨separate_sample, sampleCrashed_mem, ?_⟩
  rintro (hold | hsnapshot)
  · exact hlost [1] (by simp) (hold "a.txt" ["a.txt"] [1] (by decide) (by decide) hwritten)
  · exact hlost [2] (by simp)
      (hsnapshot "a.txt" ["a.txt"] [2] (by decide) (by decide) hwritten)

end AppCore.Storage
