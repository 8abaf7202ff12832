import AppCore.Storage.LaterOperations

/-!
# Writes

What a write does to the files below the data root.

* `failed_write_iff` — a write that fails leaves the files alone, unless there is a directory at its
  target: the rename is refused then, and nobody removes the temporary file.
-/

namespace AppCore.Storage

/-! ## The target of a write -/

section Writes

variable {provider : FileStorageProvider} {parent : Path} {base : String} {d : Disk}

theorem filesBelow_openLock {t : Disk} (h : d.openCreate (sibling parent base "lock") = .ok t) :
    filesBelow t (parent ++ [base]) = filesBelow d (parent ++ [base]) :=
  filesBelow_confined (Disk.confined_openCreate h) fun _ hq =>
    (apart_sibling parent base "lock").not_mem_below hq

theorem filesBelow_update {t : Disk} {root names : Path} {content : Bytes}
    (h : ∀ q, t.get q = if q = root ++ names then some (.file content) else d.get q) :
    filesBelow t root = Function.update (filesBelow d root) names (some content) := by
  funext rel
  by_cases hrel : rel = names
  · rw [hrel, Function.update_self, filesBelow_eq_some, h, if_pos rfl]
  · have hne : root ++ rel ≠ root ++ names := fun heq => hrel (List.append_cancel_left heq)
    rw [Function.update_of_ne hrel, filesBelow, h, if_neg hne, filesBelow]

theorem tmpPathFor_concat (p : Path) (name stamp : String) :
    ∃ other, other ≠ name ∧ tmpPathFor (p ++ [name]) stamp = p ++ [other] := by
  refine ⟨name ++ "." ++ stamp ++ ".tmp", fun h => ?_, ?_⟩
  · have hlength := congrArg String.length h
    have hdot : (".tmp" : String).length = 4 := by decide
    simp only [String.length_append] at hlength
    omega
  · rw [tmpPathFor, withFileName, List.dropLast_concat, List.getLast?_concat, Option.getD_some]

theorem target_concat (parent : Path) (base : String) (names : Path) :
    ∃ front name, parent ++ [base] ++ names = front ++ [name] := by
  obtain hnil | ⟨front, name, heq⟩ := List.eq_nil_or_concat (parent ++ [base] ++ names)
  · simp at hnil
  · exact ⟨front, name, heq.trans List.concat_eq_append⟩

/-- **Up to its temporary file**, a write leaves the files alone, and what is in the directory of
its target below the data root as well. -/
theorem wp_writeBytes_place (hp : provider.storagePath = parent ++ [base]) {path : String}
    {bytes : Bytes} {stamp : String} {Q : StorageResult Unit → Disk → Prop}
    (hfailed : ∀ e t, filesBelow t (parent ++ [base]) = filesBelow d (parent ++ [base]) →
      Q (.error e) t)
    (hplace : ∀ u names, d.get (sibling parent base "lock") ≠ some .dir →
      relativeNames path = some names → Clear u (parent ++ [base] ++ names) →
      filesBelow u (parent ++ [base]) = filesBelow d (parent ++ [base]) →
      (∀ q ∈ below (parent ++ [base]), ¬ q <+: parentPath (parent ++ [base] ++ names) →
        u.get q = d.get q) →
      (writeAtomicFile (tmpPathFor (parent ++ [base] ++ names) stamp) (parent ++ [base] ++ names)
        bytes (.transactionFailed path)).wp (fun _ => True) Q u) :
    (provider.writeBytes path bytes stamp).wp (fun _ => True) Q d := by
  rw [FileStorageProvider.writeBytes, Prog.wp_read_bind]
  refine ⟨fun _ _ => ?_, fun e _ => hfailed e d rfl⟩
  rw [FileStorageProvider.withStorageLock, FileStorageProvider.acquireOperationLock, hp,
    siblingPath_concat, Prog.wp_bind, Prog.wp_bind, Prog.wp_read]
  refine wp_io (fun t hlock => ⟨trivial, ?_⟩) fun _ => hfailed _ d rfl
  have ht := filesBelow_openLock hlock
  dsimp only
  rw [Prog.wp_read_bind]
  refine ⟨fun full hfull => ?_, fun e _ => hfailed e t ht⟩
  rw [FileStorageProvider.resolveStorage, hp] at hfull
  obtain ⟨names, hnames, rfl⟩ := resolveUnderRoot_eq_ok hfull
  rw [Prog.wp_bind]
  refine Prog.wp_mono ((within_createDirAll (parentPath (parent ++ [base] ++ names)) _).wp t)
    (fun _ _ => trivial) ?_
  intro r u hconf
  have hu : filesBelow u (parent ++ [base]) = filesBelow d (parent ++ [base]) :=
    (filesBelow_confined hconf fun _ _ => Set.notMem_empty _).trans ht
  cases r with
  | error e => exact hfailed e u hu
  | ok _ =>
    dsimp only
    rw [Prog.wp_read_bind]
    refine ⟨fun full' hfull' => ?_, fun e _ => hfailed e u hu⟩
    rw [FileStorageProvider.resolveStorage, hp] at hfull'
    obtain ⟨names', hnames', rfl⟩ := resolveUnderRoot_eq_ok hfull'
    obtain rfl := Option.some.inj (hnames.symm.trans hnames')
    have hheld : d.get (sibling parent base "lock") ≠ some .dir := by
      intro hdir
      rw [Disk.openCreate, Disk.stat_of_get hdir] at hlock
      cases hlock
    refine hplace u names hheld hnames (clear_of_resolve hfull') hu fun q hq hway => ?_
    have hplain := (apart_sibling parent base "lock").not_mem_below hq
    rw [hconf.get_eq (Set.notMem_empty _) hway,
      (Disk.confined_openCreate hlock).get_eq hplain (Set.notMem_empty _)]

theorem not_prefix_parentPath {front : Path} {name other : String} :
    ¬ front ++ [other] <+: parentPath (front ++ [name]) := by
  intro h
  have hlength := h.length_le
  simp at hlength

/-- **A write** puts its bytes in the place of one file, or leaves all files as they are. -/
theorem wp_writeBytes_files (hp : provider.storagePath = parent ++ [base]) {path : String}
    (htarget : ∀ names, relativeNames path = some names →
      d.get (parent ++ [base] ++ names) ≠ some .dir) (bytes : Bytes) (stamp : String) :
    (provider.writeBytes path bytes stamp).wp (fun _ => True) (fun r t =>
      (r = .ok () ∧ ∃ names, relativeNames path = some names ∧
        filesBelow t (parent ++ [base]) =
          Function.update (filesBelow d (parent ++ [base])) names (some bytes)) ∨
      r ≠ .ok () ∧ filesBelow t (parent ++ [base]) = filesBelow d (parent ++ [base])) d := by
  refine wp_writeBytes_place hp (fun e t ht => Or.inr ⟨by simp, ht⟩) ?_
  intro u names _ hnames hclear hu hkept
  have hbelow := append_mem_below (parent ++ [base]) names
  have htarget := htarget names hnames
  obtain ⟨front, name, hplace⟩ := target_concat parent base names
  obtain ⟨other, hother, htmp⟩ := tmpPathFor_concat front name stamp
  rw [hplace] at hclear htarget hbelow hkept ⊢
  have hfree : u.get (front ++ [name]) ≠ some .dir := by
    rw [hkept _ hbelow not_prefix_parentPath]
    exact htarget
  rw [htmp]
  refine Prog.wp_mono (wp_writeAtomicFile_replaces hother hclear hfree) (fun _ _ => trivial) ?_
  rintro r v (⟨hr, hget⟩ | ⟨hr, -, rfl⟩)
  · rw [← hplace] at hget
    exact Or.inl ⟨hr, names, hnames, hu ▸ filesBelow_update hget⟩
  · exact Or.inr ⟨hr, hu⟩

end Writes

/-! ## Writes that fail -/

/-- There is a directory at the target, and nothing keeps a write from getting as far as its
temporary file below the data root. -/
def LeavesTemporary (provider : FileStorageProvider) (path stamp : String) (d : Disk) : Prop :=
  ∃ lock names, siblingPath provider.storagePath "lock" = .ok lock ∧ d.get lock ≠ some .dir ∧
    relativeNames path = some names ∧ names ≠ [] ∧
    d.get (provider.storagePath ++ names) = some .dir ∧
    d.Free (tmpPathFor (provider.storagePath ++ names) stamp)

section Failures

variable {provider : FileStorageProvider} {parent : Path} {base path stamp : String} {bytes : Bytes}
  {d : Disk}

theorem storagePath_concat {lock : Path}
    (h : siblingPath provider.storagePath "lock" = .ok lock) :
    ∃ parent base, provider.storagePath = parent ++ [base] := by
  obtain hnil | ⟨parent, base, heq⟩ := List.eq_nil_or_concat provider.storagePath
  · rw [hnil, siblingPath] at h
    cases h
  · exact ⟨parent, base, heq.trans List.concat_eq_append⟩

theorem wp_writeBytes_unnamed (h : provider.storagePath = []) :
    (provider.writeBytes path bytes stamp).wp (fun _ => True) (fun _ t => t = d) d := by
  rw [FileStorageProvider.writeBytes, Prog.wp_read_bind]
  refine ⟨fun _ _ => ?_, fun _ _ => rfl⟩
  rw [FileStorageProvider.withStorageLock, FileStorageProvider.acquireOperationLock, h,
    Prog.wp_bind, Prog.wp_bind, Prog.wp_read]
  rfl

/-- The write gets as far as its temporary file, and fails there. -/
theorem wp_writeBytes_leaves (bytes : Bytes) (h : LeavesTemporary provider path stamp d) :
    ∃ rel, filesBelow d provider.storagePath rel = none ∧
      (provider.writeBytes path bytes stamp).wp (fun _ => True) (fun r t =>
        r = .error (.transactionFailed path) ∧
          filesBelow t provider.storagePath rel = some bytes) d := by
  obtain ⟨lock, names, hlock, hfree, hnames, hne, hdir, htmp⟩ := h
  obtain ⟨parent, base, hp⟩ := storagePath_concat hlock
  rw [hp] at hlock hdir htmp ⊢
  rw [siblingPath_concat] at hlock
  obtain rfl := Except.ok.inj hlock
  obtain ⟨front, name, rfl⟩ : ∃ front name, names = front ++ [name] := by
    obtain hnil | ⟨front, name, heq⟩ := List.eq_nil_or_concat names
    · exact absurd hnil hne
    · exact ⟨front, name, heq.trans List.concat_eq_append⟩
  obtain ⟨other, hother, htmpPath⟩ := tmpPathFor_concat (parent ++ [base] ++ front) name stamp
  rw [← List.append_assoc] at hdir htmp
  rw [htmpPath] at htmp
  have hroot : d.get (parent ++ [base]) = some .dir := by
    have hfront : d.get (parent ++ [base] ++ front) = some .dir := Disk.get_of_append hdir
    cases front with
    | nil => rwa [List.append_nil] at hfront
    | cons c front => exact Disk.get_of_append hfront
  have hheld : Held parent base (filesBelow d (parent ++ [base])) d :=
    ⟨holds_filesBelow hroot, hfree⟩
  have hresolve {t : Disk} (hroot : t.get (parent ++ [base]) = some .dir)
      (hdir : t.get (parent ++ [base] ++ front ++ [name]) = some .dir) :
      provider.resolveStorage path t = .ok (parent ++ [base] ++ front ++ [name]) := by
    rw [FileStorageProvider.resolveStorage, hp, List.append_assoc]
    exact resolveUnderRoot_of_get hnames hroot (by rw [← List.append_assoc, hdir])
  refine ⟨front ++ [other], ?_, ?_⟩
  · rw [filesBelow, ← List.append_assoc, htmp.2.1]
  rw [FileStorageProvider.writeBytes, Prog.wp_bind, Prog.wp_read, hresolve hroot hdir]
  refine wp_withStorageLock hp hheld fun t b ht _ hconf => ⟨trivial, ?_⟩
  -- the lock is not below the data root
  have hget {q : Path} (hq : q ∈ below (parent ++ [base])) : t.get q = d.get q :=
    hconf.get_eq ((apart_sibling parent base "lock").not_mem_below hq) (Set.notMem_empty _)
  have hin (rel : Path) (c : String) :
      parent ++ [base] ++ rel ++ [c] ∈ below (parent ++ [base]) := by
    rw [List.append_assoc]
    exact append_mem_below _ _
  have htdir : t.get (parent ++ [base] ++ front ++ [name]) = some .dir := by
    rw [hget (hin front name), hdir]
  have htfree : t.Free (parent ++ [base] ++ front ++ [other]) := by
    refine ⟨htmp.1, by rw [hget (hin front other), htmp.2.1], ?_, htmp.2.2.2⟩
    rw [List.dropLast_concat]
    exact Disk.get_of_append htdir
  rw [Prog.wp_bind, Prog.wp_read, hresolve ht.holds.dir htdir]
  dsimp only
  rw [Prog.wp_bind, parentPath, List.dropLast_concat]
  refine createDirAll_present (Disk.get_of_append htdir) trivial ?_
  dsimp only
  rw [Prog.wp_bind, Prog.wp_read, hresolve ht.holds.dir htdir]
  dsimp only
  rw [htmpPath]
  refine Prog.wp_mono (wp_writeAtomicFile_onto hother htdir) (fun _ _ => trivial) ?_
  rintro r u ⟨hr, ⟨htaken, -⟩ | ⟨-, hu⟩⟩
  · exact absurd htfree htaken
  · refine ⟨hr, ?_⟩
    rw [filesBelow_eq_some, ← List.append_assoc, hu, if_pos rfl]

/-- In all other cases a failure leaves the files alone. -/
theorem wp_writeBytes_keeps (h : ¬ LeavesTemporary provider path stamp d)
    (hp : provider.storagePath = parent ++ [base]) :
    (provider.writeBytes path bytes stamp).wp (fun _ => True) (fun r t => r ≠ .ok () →
      filesBelow t (parent ++ [base]) = filesBelow d (parent ++ [base])) d := by
  refine wp_writeBytes_place hp (fun e t ht _ => ht) ?_
  intro u names hheld hnames hclear hu hkept
  have hbelow := append_mem_below (parent ++ [base]) names
  obtain ⟨front, name, hplace⟩ := target_concat parent base names
  obtain ⟨other, hother, htmp⟩ := tmpPathFor_concat front name stamp
  have htmpNames : tmpPathFor (parent ++ [base] ++ names) stamp = front ++ [other] := by
    rw [hplace, htmp]
  rw [htmpNames]
  rw [hplace] at hclear hbelow hkept ⊢
  by_cases hdir : u.get (front ++ [name]) = some .dir
  · refine Prog.wp_mono (wp_writeAtomicFile_onto hother hdir) (fun _ _ => trivial) ?_
    rintro r v ⟨-, ⟨-, rfl⟩ | ⟨hfree, hv⟩⟩ _
    · exact hu
    cases names with
    | nil =>
      -- the temporary file of the root itself is next to it
      rw [List.append_nil] at hplace
      obtain ⟨rfl, hbase⟩ := List.append_inj' hplace rfl
      obtain rfl : base = name := by simpa using hbase
      rw [← hu]
      funext rel
      have hne : parent ++ [base] ++ rel ≠ parent ++ [other] := by
        intro heq
        exact (apart_concat hother).2 (heq ▸ List.prefix_append _ _)
      rw [filesBelow, hv, if_neg hne, filesBelow]
    | cons c rest =>
      refine absurd ?_ h
      have hfront : ∃ more, front = parent ++ [base] ++ more := by
        refine ⟨(c :: rest).dropLast, ?_⟩
        have hdrop := congrArg List.dropLast hplace
        rw [List.dropLast_concat, List.dropLast_append_of_ne_nil (List.cons_ne_nil c rest)] at hdrop
        exact hdrop.symm
      obtain ⟨more, rfl⟩ := hfront
      have hdirHere : d.get (parent ++ [base] ++ more ++ [name]) = some .dir := by
        rw [← hkept _ hbelow not_prefix_parentPath, hdir]
      have htmpBelow : parent ++ [base] ++ more ++ [other] ∈ below (parent ++ [base]) := by
        rw [List.append_assoc]
        exact append_mem_below _ _
      refine ⟨sibling parent base "lock", c :: rest, by rw [hp, siblingPath_concat], hheld, hnames,
        List.cons_ne_nil c rest, by rw [hp, hplace, hdirHere], ?_⟩
      rw [hp, htmpNames]
      refine ⟨hfree.1, ?_, ?_, hfree.2.2.2⟩
      · rw [← hkept _ htmpBelow not_prefix_parentPath, hfree.2.1]
      · rw [List.dropLast_concat]
        exact Disk.get_of_append hdirHere
  · refine Prog.wp_mono (wp_writeAtomicFile_replaces hother hclear hdir) (fun _ _ => trivial) ?_
    rintro r v (⟨hr, -⟩ | ⟨-, -, rfl⟩) herror
    · exact absurd hr herror
    · exact hu

/-- **When a failed write leaves the files alone.** -/
theorem failed_write_iff (provider : FileStorageProvider) (path : String) (bytes : Bytes)
    (stamp : String) (d : Disk) :
    (∀ e, (provider.writeBytes path bytes stamp).result d = .error e →
      filesBelow ((provider.writeBytes path bytes stamp).final d) provider.storagePath =
        filesBelow d provider.storagePath) ↔ ¬ LeavesTemporary provider path stamp d := by
  constructor
  · intro hkept hleaves
    obtain ⟨rel, hnone, -, hresult, hfile⟩ := wp_writeBytes_leaves bytes hleaves
    rw [hkept _ hresult, hnone] at hfile
    cases hfile
  · intro hleaves e hresult
    obtain hnil | ⟨parent, base, heq⟩ := List.eq_nil_or_concat provider.storagePath
    · rw [(wp_writeBytes_unnamed hnil).2]
    · have hp : provider.storagePath = parent ++ [base] := heq.trans List.concat_eq_append
      rw [hp]
      refine (wp_writeBytes_keeps hleaves hp).2 ?_
      rw [hresult]
      simp

end Failures

/-- A data root with one directory. -/
def occupiedDisk : Disk :=
  .ofNodes [([], .dir), (["srv"], .dir), (["srv", "data"], .dir), (["srv", "data", "a"], .dir)]
    (by decide)

/-- **What a failed write leaves behind**: the bytes, in a file that the next snapshot copies. -/
theorem failed_write_debris :
    let write := sampleProvider.writeBytes "a" [3] "1_ThreadId1_0"
    write.result occupiedDisk = .error (.transactionFailed "a") ∧
      filesBelow (write.final occupiedDisk) sampleProvider.storagePath ≠
        filesBelow occupiedDisk sampleProvider.storagePath := by
  intro write
  have hleaves : LeavesTemporary sampleProvider "a" "1_ThreadId1_0" occupiedDisk :=
    ⟨["srv", "data.lock"], ["a"], siblingPath_concat ["srv"] "data" "lock", by decide, by decide,
      by decide, by decide, by decide⟩
  obtain ⟨rel, hnone, -, hresult, hfile⟩ := wp_writeBytes_leaves [3] hleaves
  refine ⟨hresult, fun heq => ?_⟩
  rw [heq, hnone] at hfile
  cases hfile

end AppCore.Storage
