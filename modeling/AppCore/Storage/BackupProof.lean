import AppCore.Storage.Backup
import AppCore.Storage.FsProof

/-!
# Copies of a tree

* `copyVerifiedTree_copies` — after a copy of a verified tree succeeded, the copy holds every file
  of the tree.
-/

namespace AppCore.Storage

def filesBelow (d : Disk) (root rel : Path) : Option Bytes :=
  match d.get (root ++ rel) with
  | some (.file content) => some content
  | _ => none

/-- A directory with these files below it. -/
structure Holds (files : Path → Option Bytes) (root : Path) (d : Disk) : Prop where
  dir : d.get root = some .dir
  file : ∀ rel content, files rel = some content → d.get (root ++ rel) = some (.file content)

variable {d : Disk} {content : Bytes}

theorem filesBelow_eq_some {root rel : Path} :
    filesBelow d root rel = some content ↔ d.get (root ++ rel) = some (.file content) := by
  unfold filesBelow
  split
  · rename_i hget
    simp [hget]
  · rename_i hother
    constructor
    · simp
    · intro hget
      exact absurd hget (hother content)

theorem holds_filesBelow {root : Path} (h : d.get root = some .dir) :
    Holds (filesBelow d root) root d :=
  ⟨h, fun _ _ => filesBelow_eq_some.1⟩

theorem Holds.confined {files : Path → Option Bytes} {root : Path} {region made : Set Path}
    {d t : Disk} (h : Holds files root d) (hdt : Disk.Confined region made d t)
    (hregion : ∀ q ∈ below root, q ∉ region) : Holds files root t where
  dir := hdt.get_of_some (hregion _ (self_mem_below root)) h.dir
  file rel content hrel :=
    hdt.get_of_some (hregion _ (append_mem_below root rel)) (h.file rel content hrel)

theorem Holds.renamed {files : Path → Option Bytes} {src dst : Path} {d t : Disk}
    (h : Holds files src d) (hne : src ≠ dst) (hdt : d.rename src dst = .ok t) :
    Holds files dst t := by
  have hget (r : Path) : t.get (dst ++ r) = d.get (src ++ r) := by
    rw [(Disk.get_rename hdt hne).2, if_pos (List.prefix_append _ _), List.drop_left]
  constructor
  · have hdir := hget []
    rw [List.append_nil, List.append_nil] at hdir
    rw [hdir, h.dir]
  · intro rel content hrel
    rw [hget, h.file rel content hrel]

theorem readRegularFile_eq_ok {p : Path} {e : StorageError} :
    readRegularFile p e d = .ok content ↔ d.get p = some (.file content) := by
  rw [← Disk.readFile_eq_ok, readRegularFile]
  cases d.readFile p with
  | error i => simp
  | ok b => simp

theorem within_copyInto (source destination : Path) (e : StorageError) :
    Prog.Within (below destination) (above destination) (copyInto source destination e) := by
  have hparent : Prog.Within (below destination) (above destination)
      (createDirAll (parentPath destination) e) := by
    refine (within_createDirAll _ e).mono (Set.empty_subset _) fun q hq => .inr ?_
    exact List.IsPrefix.trans hq (List.dropLast_prefix _)
  refine hparent.bind fun _ => (Prog.within_read _).bind fun _ => (Prog.within_read _).bind fun _ =>
    (within_io fun d t h => ?_).bind fun _ => within_io fun d t h => ?_
  · exact (Disk.confined_createNew h).mono (Set.Subset.refl _) (Set.empty_subset _)
  · exact (Disk.confined_writeAll h).mono (Set.Subset.refl _) (Set.empty_subset _)

variable {source destination : Path}

/-- A copy is made where nothing was. -/
theorem wp_copyInto {e : StorageError} :
    (copyInto source destination e).wp (Disk.Confined (below destination) (above destination) d)
      (fun r t => Disk.Confined (below destination) (above destination) d t ∧
        (r = .ok () → ∃ content, d.get source = some (.file content) ∧
          d.get destination = none ∧ t.get destination = some (.file content))) d := by
  have hresult : (copyInto source destination e).wp (fun _ => True)
      (fun r t => r = .ok () → ∃ content, d.get source = some (.file content) ∧
        d.get destination = none ∧ t.get destination = some (.file content)) d := by
    rw [copyInto, Prog.wp_bind]
    refine Prog.wp_mono ((within_createDirAll (parentPath destination) e).wp d) (fun _ _ => trivial)
      ?_
    rintro (e' | _) u hu
    · simp
    dsimp only
    rw [Prog.wp_read_bind]
    refine ⟨fun _ _ => ?_, fun e' _ => by simp⟩
    rw [copyAndSync, Prog.wp_read_bind]
    refine ⟨fun content hread => ?_, fun e' _ => by simp⟩
    refine wp_io_bind (fun v hcreate => ⟨trivial, ?_⟩) fun _ => by simp
    refine wp_io (fun w hwrite => ⟨trivial, fun _ => ?_⟩) fun _ => by simp
    refine ⟨content, hu.file_of_get (Set.notMem_empty _) (readRegularFile_eq_ok.1 hread), ?_, ?_⟩
    · cases hget : d.get destination with
      | none => rfl
      | some n =>
        have hnone := (Disk.get_createNew hcreate).1
        rw [hu.get_of_some (Set.notMem_empty _) hget] at hnone
        simp at hnone
    · rw [Disk.get_writeAll hwrite, if_pos rfl]
  exact Prog.wp_mono (Prog.wp_and ((within_copyInto source destination e).wp d) hresult)
    (fun _ h => h.1) fun _ _ h => h

variable {name : String}

theorem relativeNames_of_backup_name (h : validateBackupName name = .ok ()) :
    ∃ part, relativeNames name = some [part] := by
  unfold validateBackupName at h
  split at h
  · simp at h
  rename_i hname
  rw [not_or, not_or, not_not] at hname
  obtain ⟨hempty, hlength, -⟩ := hname
  obtain ⟨part, hpart⟩ := List.length_eq_one_iff.1 hlength
  rw [hpart] at h
  cases part with
  | normal part =>
    have habsolute : ¬ isAbsolute name = true := by
      intro habsolute
      simp [components, habsolute] at hpart
    exact ⟨part, by rw [relativeNames, if_neg (by simp [hempty, habsolute]), hpart]; rfl⟩
  | rootDir => simp at h
  | curDir => simp at h
  | parentDir => simp at h

/-! ## Copying a verified tree -/

theorem namesOf_of_mapM {parts : List Component} {names : Path}
    (h : parts.mapM normalName? = some names) : namesOf parts = some names := by
  induction parts generalizing names with
  | nil => simpa [namesOf] using h
  | cons part rest ih =>
    rw [List.mapM_cons] at h
    cases part with
    | normal name =>
      cases hrest : rest.mapM normalName? with
      | none => simp [normalName?, hrest] at h
      | some names' =>
        rw [namesOf, ih hrest]
        simpa [normalName?, hrest] using h
    | rootDir => simp [normalName?] at h
    | curDir => simp [normalName?] at h
    | parentDir => simp [normalName?] at h

theorem relativeNames_of_validated {text : String} {names : Path}
    (h : validatedManifestPath text = .ok names) : relativeNames text = some names := by
  unfold validatedManifestPath at h
  split at h
  · rename_i names' hnames
    split at h
    · simp at h
    · rename_i htext
      obtain rfl := Except.ok.inj h
      rw [relativeNames, if_neg htext, namesOf_of_mapM hnames]
  · simp at h

theorem wp_copyVerifiedFile {entry : StorageBackupManifestFileV1} :
    (copyVerifiedFile source destination entry).wp (fun _ => True)
      (fun r t => r = .ok () → ∃ rel content, validatedManifestPath entry.path = .ok rel ∧
        Disk.Confined (below (destination ++ rel)) (above (destination ++ rel)) d t ∧
        d.get (source ++ rel) = some (.file content) ∧ d.get (destination ++ rel) = none ∧
        t.get (destination ++ rel) = some (.file content)) d := by
  rw [copyVerifiedFile, Prog.wp_read_bind]
  refine ⟨fun rel hrel => ?_, fun e _ => by simp⟩
  rw [Prog.wp_read_bind]
  refine ⟨fun src hsrc => ?_, fun e _ => by simp⟩
  rw [Prog.wp_read_bind]
  refine ⟨fun dst hdst => ?_, fun e _ => by simp⟩
  have hnames := relativeNames_of_validated hrel
  obtain ⟨names, hnames', rfl⟩ := resolveUnderRoot_eq_ok hsrc
  obtain rfl := Option.some.inj (hnames.symm.trans hnames')
  obtain ⟨names, hnames', rfl⟩ := resolveUnderRoot_eq_ok hdst
  obtain rfl := Option.some.inj (hnames.symm.trans hnames')
  refine Prog.wp_mono wp_copyInto (fun _ _ => trivial) ?_
  rintro r t ⟨hconf, hcopy⟩ hr
  obtain ⟨content, hsource, hnone, hfile⟩ := hcopy hr
  exact ⟨rel, content, hrel, hconf, hsource, hnone, hfile⟩

/-- These files were copied, each of them once. -/
structure Copied (source destination : Path) (d t : Disk) (copied : List Path) : Prop where
  confined : Disk.Confined (below destination) (above destination) d t
  nodup : copied.Nodup
  file : ∀ rel ∈ copied, ∃ content, d.get (source ++ rel) = some (.file content) ∧
    t.get (destination ++ rel) = some (.file content)

/-- The loop of `copy_verified_tree`. A file that is copied twice makes it fail. -/
theorem wp_copyVerifiedFiles (hapart : Apart source destination)
    (entries : List StorageBackupManifestFileV1) {t : Disk} {copied : List Path}
    (h : Copied source destination d t copied) :
    (Prog.each (copyVerifiedFile source destination) entries).wp (fun _ => True)
      (fun r u => r = .ok () → ∃ rels, Copied source destination d u (copied ++ rels) ∧
        List.Forall₂ (fun entry rel => validatedManifestPath entry.path = .ok rel) entries rels)
      t := by
  induction entries generalizing t copied with
  | nil =>
    refine Prog.wp_ret.2 fun _ => ⟨[], ?_, .nil⟩
    rwa [List.append_nil]
  | cons entry entries ih =>
    rw [Prog.each, Prog.wp_andThen]
    refine Prog.wp_mono wp_copyVerifiedFile (fun _ _ => trivial) ?_
    rintro (e | _) u hcopy
    · simp
    obtain ⟨rel, content, hrel, hconf, hsource, hnone, hfile⟩ := hcopy rfl
    have hsource : d.get (source ++ rel) = some (.file content) :=
      h.confined.file_of_get (hapart.not_mem_below (append_mem_below source rel)) hsource
    have hnew : rel ∉ copied := by
      intro hmem
      obtain ⟨content', -, hthere⟩ := h.file rel hmem
      rw [hnone] at hthere
      simp at hthere
    have hcopied : Copied source destination d u (copied ++ [rel]) := by
      refine ⟨h.confined.trans (hconf.mono (below_append _ _) (above_append _ _)), ?_, ?_⟩
      · exact List.nodup_append_comm.1 (List.nodup_cons.2 ⟨hnew, h.nodup⟩)
      · intro rel' hrel'
        rcases List.mem_append.1 hrel' with hrel' | hrel'
        · obtain ⟨content', hsource', hthere⟩ := h.file rel' hrel'
          -- nothing was at or below the new copy
          have hother : destination ++ rel' ∉ below (destination ++ rel) := by
            rintro ⟨r, hr⟩
            rw [← hr, Disk.get_append_of_none hnone] at hthere
            simp at hthere
          exact ⟨content', hsource', hconf.get_of_some hother hthere⟩
        · obtain rfl := List.mem_singleton.1 hrel'
          exact ⟨content, hsource, hfile⟩
    refine Prog.wp_mono (ih hcopied) (fun _ h => h) ?_
    intro r v hv hr
    obtain ⟨rels, hcopied', hrels⟩ := hv hr
    exact ⟨rel :: rels, by simpa using hcopied', .cons hrel hrels⟩

theorem within_copyVerifiedFile (source destination : Path) (entry : StorageBackupManifestFileV1) :
    Prog.Within (below destination) (above destination)
      (copyVerifiedFile source destination entry) := by
  refine Prog.within_read_bind fun _ _ _ => Prog.within_read_bind fun _ _ _ =>
    Prog.within_read_bind fun d dst hdst => ?_
  obtain ⟨names, -, rfl⟩ := resolveUnderRoot_eq_ok hdst
  exact (within_copyInto _ _ _).mono (below_append _ _) (above_append destination names)

theorem within_removeDestination (destination : Path) :
    Prog.Within (below destination) (above destination) (removeDestination destination) := by
  refine (Prog.within_read _).bind fun present => ?_
  split
  · exact (Prog.within_read _).bind fun _ =>
      (within_removeDirAll _ _).mono (Set.Subset.refl _) (Set.empty_subset _)
  · exact Prog.within_pure _

theorem confined_newRoot {d t : Disk} {p : Path} (h : d.createDir p = .ok t) :
    Disk.Confined (below p) (above p) d t := by
  refine (Disk.confined_createDir h).mono (Set.empty_subset _) ?_
  rintro q rfl
  exact .inl (self_mem_below q)

theorem within_copyVerifiedTree (source destination : Path) (manifest : StorageBackupManifestV1) :
    Prog.Within (below destination) (above destination)
      (copyVerifiedTree source destination manifest) :=
  (within_removeDestination destination).bind fun _ =>
    (within_io fun _ _ h => confined_newRoot h).bind fun _ =>
      (Prog.within_each _ fun entry _ => within_copyVerifiedFile _ _ entry).bind fun _ =>
        Prog.within_read _

/-! ## A verified tree -/

theorem mem_collectRegularFiles {root rel : Path} {files : List Path}
    (h : collectRegularFiles root d = .ok files)
    (hfile : d.get (root ++ rel) = some (.file content)) : rel ∈ files := by
  unfold collectRegularFiles at h
  split at h
  · simp at h
  rename_i entries hentries
  obtain rfl := Except.ok.inj h
  obtain ⟨hroot, hall⟩ := boundedTreeEntries_eq_ok hentries
  cases rel with
  | nil =>
    rw [List.append_nil, hroot] at hfile
    simp at hfile
  | cons c r =>
    have hmem := hall _ _ ⟨c, r, rfl⟩ hfile
    refine List.mem_map.2 ⟨_, List.mem_filter.2 ⟨hmem, by simp⟩, ?_⟩
    exact List.drop_left

theorem within_writeManifest [ManifestJson] (root : Path)
    (manifest : StorageBackupManifestV1) (stamp : String) :
    Prog.Within (below root) ∅ (writeManifest root manifest stamp) := by
  refine (within_writeAtomicFile tmpPathFor_ne _ _).mono ?_ (Set.empty_subset _)
  have htmp : tmpPathFor (root ++ [backupManifest]) stamp =
      root ++ [backupManifest ++ "." ++ stamp ++ ".tmp"] := by
    rw [tmpPathFor, withFileName, List.dropLast_concat, List.getLast?_concat, Option.getD_some]
  rw [htmp]
  exact Set.union_subset (below_append _ _) (below_append _ _)

variable [Sha256]

variable {dataRoot : Path}

theorem verifyFiles_eq_ok {previous : Option String} {entries : List StorageBackupManifestFileV1}
    (h : verifyFiles name dataRoot d previous entries = .ok ()) :
    ∀ entry ∈ entries, ∃ rel content, validatedManifestPath entry.path = .ok rel ∧
      d.get (dataRoot ++ rel) = some (.file content) := by
  induction entries generalizing previous with
  | nil => simp
  | cons entry rest ih =>
    rw [verifyFiles] at h
    split at h
    · simp at h
    rename_i rel hrel
    split at h
    · simp at h
    split at h
    · simp at h
    split at h
    · simp at h
    rename_i size sha hhash
    split at h
    · simp at h
    intro other hother
    rcases List.mem_cons.1 hother with rfl | hother
    · unfold hashFile at hhash
      split at hhash
      · simp at hhash
      · rename_i content hread
        exact ⟨rel, content, hrel, readRegularFile_eq_ok.1 hread⟩
    · exact ih h other hother

variable {manifest : StorageBackupManifestV1}

/-- A verified tree has as many files as its manifest has entries. -/
theorem verifyManifest_eq_ok (h : verifyManifest name dataRoot manifest d = .ok ()) :
    (∀ entry ∈ manifest.files, ∃ rel content, validatedManifestPath entry.path = .ok rel ∧
      d.get (dataRoot ++ rel) = some (.file content)) ∧
    ∃ files, collectRegularFiles dataRoot d = .ok files ∧
      files.length = manifest.files.length := by
  unfold verifyManifest at h
  split at h
  · simp at h
  split at h
  · simp at h
  rename_i hfiles
  split at h
  · simp at h
  rename_i files hcollect
  split at h
  · simp at h
  rename_i hlength
  exact ⟨verifyFiles_eq_ok hfiles, files, hcollect, not_not.1 hlength⟩

/-- Every file of a verified tree is one of those its manifest names once. -/
theorem mem_of_verifyManifest (h : verifyManifest name dataRoot manifest d = .ok ())
    {rels : List Path}
    (hrels : List.Forall₂ (fun entry rel => validatedManifestPath entry.path = .ok rel)
      manifest.files rels) (hnodup : rels.Nodup) {rel : Path}
    (hfile : d.get (dataRoot ++ rel) = some (.file content)) : rel ∈ rels := by
  obtain ⟨hentries, files, hcollect, hlength⟩ := verifyManifest_eq_ok h
  have hsubset : rels ⊆ files := by
    intro r hr
    obtain ⟨i, hi, rfl⟩ := List.getElem_of_mem hr
    have hi' : i < manifest.files.length := hrels.length_eq ▸ hi
    obtain ⟨r', content', hvalid, hget⟩ := hentries _ (List.getElem_mem hi')
    have hsame := List.forall₂_iff_get.1 hrels
    have hvalid' := hsame.2 i hi' hi
    obtain rfl := Except.ok.inj (hvalid.symm.trans hvalid')
    exact mem_collectRegularFiles hcollect hget
  have hperm := (List.subperm_of_subset hnodup hsubset).perm_of_length_le (by
    rw [hlength, hrels.length_eq])
  exact hperm.mem_iff.2 (mem_collectRegularFiles hcollect hfile)

/-- **A copy of a verified tree** that succeeded holds its files. -/
theorem copyVerifiedTree_copies (hapart : Apart source destination)
    (h : verifyManifest name source manifest d = .ok ()) :
    (copyVerifiedTree source destination manifest).wp (fun _ => True)
      (fun r t => r = .ok () → Holds (filesBelow d source) destination t) d := by
  rw [copyVerifiedTree, Prog.wp_bind]
  refine Prog.wp_mono ((within_removeDestination destination).wp d) (fun _ _ => trivial) ?_
  rintro (e | _) t ht
  · simp
  refine wp_io_bind (fun u hcreate => ⟨trivial, ?_⟩) fun _ => by simp
  have hu : Copied source destination d u [] :=
    ⟨ht.trans (confined_newRoot hcreate), List.nodup_nil, by simp⟩
  rw [Prog.wp_bind]
  refine Prog.wp_mono (wp_copyVerifiedFiles hapart manifest.files hu) (fun _ h => h) ?_
  rintro (e | _) v hv
  · simp
  obtain ⟨rels, hcopied, hrels⟩ := hv rfl
  rw [List.nil_append] at hcopied
  dsimp only
  rw [Prog.wp_read]
  intro hsync
  constructor
  · unfold syncDirectoryTree at hsync
    split at hsync
    · simp at hsync
    · rename_i entries hentries
      exact (boundedTreeEntries_eq_ok hentries).1
  · intro rel content hrel
    have hsource := filesBelow_eq_some.1 hrel
    obtain ⟨content', hsource', hfile⟩ :=
      hcopied.file rel (mem_of_verifyManifest h hrels hcopied.nodup hsource)
    rw [hsource] at hsource'
    obtain rfl := Node.file.inj (Option.some.inj hsource')
    exact hfile

theorem within_copySnapshotFile (source destination relative : Path) :
    Prog.Within (below destination) (above destination)
      (copySnapshotFile source destination relative) := by
  refine Prog.within_read_bind fun _ _ _ => Prog.within_read_bind fun _ _ _ =>
    Prog.within_read_bind fun d dst hdst => Prog.Within.bind ?_ fun _ =>
      (Prog.within_read _).bind fun _ => Prog.within_pure _
  obtain ⟨names, -, rfl⟩ := resolveUnderRoot_eq_ok hdst
  exact (within_copyInto _ _ _).mono (below_append _ _) (above_append destination names)

variable [ManifestJson]

theorem within_populateSnapshot (provider : FileStorageProvider) (name : String) (staging : Path)
    (nowMs : UInt64) (stamp : String) :
    Prog.Within (below staging) (above staging)
      (provider.populateSnapshot name staging nowMs stamp) := by
  refine (within_io fun d t h => ?_).bind fun _ => (Prog.within_read _).bind fun files => ?_
  · refine (Disk.confined_createDir h).mono (Set.empty_subset _) ?_
    rintro q rfl
    exact .inl (append_mem_below _ _)
  dsimp only
  split
  · exact Prog.within_fail _
  · have hcopy (relative : Path) : Prog.Within (below staging) (above staging)
        (copySnapshotFile provider.storagePath (staging ++ [backupData]) relative) :=
      (within_copySnapshotFile _ _ _).mono (below_append _ _) (above_append _ _)
    exact (Prog.within_collect _ fun relative _ => hcopy relative).bind fun entries =>
      ((within_writeManifest staging _ stamp).mono (Set.Subset.refl _) (Set.empty_subset _)).bind
        fun _ => (Prog.within_read _).bind fun _ => (Prog.within_read _).bind fun _ =>
          Prog.within_pure _

theorem within_createSnapshotLocked (provider : FileStorageProvider) (name : String)
    (nowMs : UInt64) (stagingStamp manifestStamp : String) :
    Prog.Within (below provider.backupPath) (above provider.backupPath)
      (provider.createSnapshotLocked name nowMs stagingStamp manifestStamp) := by
  refine Prog.within_read_bind fun _ _ hname => (Prog.within_read _).bind fun _ =>
    Prog.within_read_bind fun d final hfinal => (Prog.within_read _).bind fun taken => ?_
  obtain ⟨part, hpart⟩ := relativeNames_of_backup_name hname
  obtain ⟨names, hnames, rfl⟩ := resolveUnderRoot_eq_ok hfinal
  obtain rfl := Option.some.inj (hpart.symm.trans hnames)
  split
  · exact Prog.within_fail _
  have hstaging : snapshotStagingPath (provider.backupPath ++ [part]) stagingStamp =
      provider.backupPath ++ [part ++ "." ++ stagingStamp ++ ".snapshot.tmp"] := by
    rw [snapshotStagingPath, withFileName, List.dropLast_concat, List.getLast?_concat,
      Option.getD_some]
  have hne : part ++ "." ++ stagingStamp ++ ".snapshot.tmp" ≠ part := by
    intro h
    have hlength := congrArg String.length h
    simp only [String.length_append] at hlength
    have hsuffix : (".snapshot.tmp" : String).length = 13 := by decide
    omega
  rw [hstaging]
  have hpopulate := (within_populateSnapshot provider name
    (provider.backupPath ++ [part ++ "." ++ stagingStamp ++ ".snapshot.tmp"]) nowMs
    manifestStamp).mono (below_append _ _) (above_append _ _)
  refine (within_io fun d t h => ?_).bind fun _ => (Prog.within_read _).bind fun _ =>
    hpopulate.attempt.bind fun outcome => ?_
  · refine (Disk.confined_createDir h).mono (Set.empty_subset _) ?_
    rintro q rfl
    exact .inl (append_mem_below _ _)
  split
  · exact ((within_removeDirAll _ _).mono (below_append _ _) (Set.empty_subset _)).attempt.bind
      fun _ => Prog.within_fail _
  · refine (Prog.within_read _).bind fun taken => ?_
    split
    · exact Prog.within_fail _
    · refine (Prog.within_read _).bind fun _ => (within_io fun d t h => ?_).bind fun _ =>
        (Prog.within_read _).bind fun _ => Prog.within_pure _
      refine (Disk.confined_rename h (by simpa using hne)).mono ?_ (Set.empty_subset _)
      exact Set.union_subset (below_append _ _) (below_append _ _)

end AppCore.Storage
