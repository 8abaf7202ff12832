import AppCore.Base.Frame
import AppCore.Storage.Fs

/-!
# What file operations do

* `mem_boundedTreeEntries` — a traversal that ends within its limits finds everything.
-/

namespace AppCore.Storage

variable {d : Disk} {e : StorageError} {C : Disk → Prop} {call : Disk → Except IoError Disk}
  {Q : StorageResult Unit → Disk → Prop}

theorem wp_io (hok : ∀ t, call d = .ok t → C t ∧ Q (.ok ()) t)
    (herror : (∃ i, call d = .error i) → Q (.error e) d) :
    (io call e).wp C Q d := by
  rw [io, Prog.wp_step]
  constructor
  · intro t h
    cases hcall : call d with
    | error i => simp [hcall] at h
    | ok t' =>
      rw [hcall] at h
      obtain rfl := Except.ok.inj h
      exact hok t' hcall
  · intro e' h
    cases hcall : call d with
    | error i =>
      rw [hcall] at h
      obtain rfl := Except.error.inj h
      exact herror ⟨i, hcall⟩
    | ok t => simp [hcall] at h

theorem wp_io_bind {α : Type} {g : Unit → StorageProg α} {Q : StorageResult α → Disk → Prop}
    (hok : ∀ t, call d = .ok t → C t ∧ (g ()).wp C Q t)
    (herror : (∃ i, call d = .error i) → Q (.error e) d) :
    Prog.wp (io call e >>= g) C Q d := by
  rw [Prog.wp_bind]
  exact wp_io hok herror

theorem within_io {region made : Set Path}
    (h : ∀ d t, call d = .ok t → Disk.Confined region made d t) :
    Prog.Within region made (io call e) := by
  refine Prog.within_step fun d t hdt => ?_
  cases hcall : call d with
  | error i => simp [hcall] at hdt
  | ok t' =>
    rw [hcall] at hdt
    obtain rfl := Except.ok.inj hdt
    exact h d t' hcall

/-! ## Text below a root -/

/-- The names of components that stay below the root. -/
def namesOf : List Component → Option Path
  | [] => some []
  | .normal name :: rest => (namesOf rest).map (name :: ·)
  | .curDir :: rest => namesOf rest
  | .rootDir :: _ => none
  | .parentDir :: _ => none

/-- The names a text gives below a root. -/
def relativeNames (text : String) : Option Path :=
  if text = "" ∨ isAbsolute text = true then none else namesOf (components text)

variable {text : String} {parts : List Component}

theorem resolveComponents_eq_ok {current p : Path}
    (h : resolveComponents d text current parts = .ok p) :
    ∃ names, namesOf parts = some names ∧ p = current ++ names := by
  fun_induction resolveComponents d text current parts with
  | case1 current =>
    obtain rfl := Except.ok.inj h
    exact ⟨[], rfl, (List.append_nil _).symm⟩
  | case2 => simp at h
  | case3 => simp at h
  | case4 current rest ih => exact ih h
  | case5 current part rest n hstat ih =>
    obtain ⟨names, hnames, rfl⟩ := ih h
    exact ⟨part :: names, by simp [namesOf, hnames], by simp⟩
  | case6 current part rest hstat ih =>
    obtain ⟨names, hnames, rfl⟩ := ih h
    exact ⟨part :: names, by simp [namesOf, hnames], by simp⟩
  | case7 => simp at h

theorem resolveUnderRoot_eq_ok {root p : Path} (h : resolveUnderRoot root text d = .ok p) :
    ∃ names, relativeNames text = some names ∧ p = root ++ names := by
  unfold resolveUnderRoot at h
  split at h
  · simp at h
  rename_i htext
  rw [relativeNames, if_neg htext]
  split at h
  · simp at h
  · exact resolveComponents_eq_ok h
  · exact resolveComponents_eq_ok h
  · simp at h

/-- A path on which nothing is in the way: what is there, or what may be made. -/
def Clear (d : Disk) (p : Path) : Prop := (∃ n, d.stat p = .ok n) ∨ d.stat p = .error .notFound

theorem clear_of_resolveComponents {current p : Path} (hcurrent : Clear d current)
    (h : resolveComponents d text current parts = .ok p) : Clear d p := by
  fun_induction resolveComponents d text current parts with
  | case1 current =>
    obtain rfl := Except.ok.inj h
    exact hcurrent
  | case2 => simp at h
  | case3 => simp at h
  | case4 current rest ih => exact ih hcurrent h
  | case5 current part rest n hstat ih => exact ih (Or.inl ⟨n, hstat⟩) h
  | case6 current part rest hstat ih => exact ih (Or.inr hstat) h
  | case7 => simp at h

theorem clear_of_resolve {root p : Path} (h : resolveUnderRoot root text d = .ok p) :
    Clear d p := by
  unfold resolveUnderRoot at h
  split at h
  · simp at h
  split at h
  · simp at h
  · next hstat => exact clear_of_resolveComponents (Or.inl ⟨.dir, hstat⟩) h
  · next hstat => exact clear_of_resolveComponents (Or.inr hstat) h
  · simp at h

variable {p : Path}

theorem isName_of_clear {c : String} (h : Clear d (p ++ [c])) :
    isName c = true := by
  obtain ⟨n, hn⟩ | hn := h
  · exact Disk.isName_of_get (Disk.stat_eq_ok.1 hn) c (by simp)
  · unfold Disk.stat at hn
    split at hn
    · cases hn
    split at hn
    · cases hn
    next hnames =>
      simp only [Bool.not_eq_true, Bool.not_eq_false', List.all_append, List.all_cons, List.all_nil,
        Bool.and_true, Bool.and_eq_true] at hnames
      exact hnames.2

theorem resolveComponents_of_names {current names : Path} (hnames : namesOf parts = some names)
    (hclear : ∀ q, q <+: names → Clear d (current ++ q)) :
    resolveComponents d text current parts = .ok (current ++ names) := by
  induction parts generalizing current names with
  | nil =>
    obtain rfl := Option.some.inj hnames
    rw [resolveComponents, List.append_nil]
  | cons part rest ih =>
    cases part with
    | rootDir => simp [namesOf] at hnames
    | parentDir => simp [namesOf] at hnames
    | curDir => exact ih hnames hclear
    | normal name =>
      obtain ⟨names, hrest, rfl⟩ := Option.map_eq_some_iff.1 hnames
      have hnext : resolveComponents d text (current ++ [name]) rest =
          .ok (current ++ name :: names) := by
        rw [ih hrest, List.append_assoc, List.singleton_append]
        intro q hq
        rw [List.append_assoc]
        exact hclear _ (List.cons_prefix_cons.2 ⟨rfl, hq⟩)
      rw [resolveComponents]
      rcases hclear [name] (List.cons_prefix_cons.2 ⟨rfl, List.nil_prefix⟩) with ⟨n, hn⟩ | hn
      · rw [hn]
        exact hnext
      · rw [hn]
        exact hnext

theorem resolveUnderRoot_of_clear {root names : Path} (hnames : relativeNames text = some names)
    (hroot : d.get root = some .dir) (hclear : ∀ q, q <+: names → Clear d (root ++ q)) :
    resolveUnderRoot root text d = .ok (root ++ names) := by
  unfold relativeNames at hnames
  split at hnames
  · simp at hnames
  rename_i htext
  rw [resolveUnderRoot, if_neg htext, Disk.stat_of_get hroot]
  exact resolveComponents_of_names hnames hclear

theorem resolveUnderRoot_of_get {root names : Path} {n : Node}
    (hnames : relativeNames text = some names) (hroot : d.get root = some .dir)
    (hget : d.get (root ++ names) = some n) :
    resolveUnderRoot root text d = .ok (root ++ names) := by
  refine resolveUnderRoot_of_clear hnames hroot ?_
  rintro q ⟨r, rfl⟩
  cases r with
  | nil =>
    rw [List.append_nil] at hget
    exact .inl ⟨n, Disk.stat_of_get hget⟩
  | cons c r =>
    rw [← List.append_assoc] at hget
    exact .inl ⟨.dir, Disk.stat_of_get (Disk.get_of_append hget)⟩

/-! ## Directories -/

theorem ensureRealDirectory_eq_ok :
    ensureRealDirectory p d = .ok () ↔ d.get p = some .dir := by
  unfold ensureRealDirectory
  rw [← Disk.stat_eq_ok]
  cases d.stat p with
  | error e => simp
  | ok n => cases n <;> simp

theorem confined_ensureDir {d t : Disk} (h : ensureDir p d = .ok t) :
    Disk.Confined ∅ {p} d t := by
  unfold ensureDir at h
  split at h
  · obtain rfl := Except.ok.inj h
    exact .refl _ _ d
  · simp at h
  · exact Disk.confined_createDir h
  · simp at h

theorem within_createDirAll (path : Path) (e : StorageError) :
    Prog.Within ∅ (above path) (createDirAll path e) := by
  refine Prog.within_each _ fun p hp => within_io fun d t h => ?_
  refine (confined_ensureDir h).mono (Set.Subset.refl _) ?_
  rintro q rfl
  exact .inr ((List.mem_inits _ _).1 (List.mem_of_mem_tail hp))

theorem within_createRealDirectoryAll (path : Path) :
    Prog.Within ∅ (above path) (createRealDirectoryAll path) := by
  refine Prog.within_read_bind fun d present _ => ?_
  split
  · exact Prog.within_read _
  · exact (within_createDirAll path _).bind fun _ => Prog.within_read _

variable {path : Path}

/-- Directories that are there are left alone. -/
theorem createDirAll_present (hpath : d.get path = some .dir) (hC : C d) (hQ : Q (.ok ()) d) :
    (createDirAll path e).wp C Q d := by
  have hdir : ∀ p ∈ path.inits.tail, d.get p = some .dir := by
    intro p hp
    obtain ⟨r, rfl⟩ := (List.mem_inits _ _).1 (List.mem_of_mem_tail hp)
    cases r with
    | nil => rwa [List.append_nil] at hpath
    | cons c r => exact Disk.get_of_append hpath
  have hloop : ∀ ps : List Path, (∀ p ∈ ps, d.get p = some .dir) →
      (Prog.each (fun p => io (ensureDir p) e) ps).wp C Q d := by
    intro ps
    induction ps with
    | nil =>
      intro _
      exact Prog.wp_ret.2 hQ
    | cons p ps ih =>
      intro hps
      have hensure : ensureDir p d = .ok d := by
        rw [ensureDir, Disk.stat_of_get (hps p List.mem_cons_self)]
      refine wp_io_bind (fun t ht => ?_) fun ⟨i, hi⟩ => ?_
      · obtain rfl := Except.ok.inj (hensure.symm.trans ht)
        exact ⟨hC, ih fun q hq => hps q (List.mem_cons_of_mem _ hq)⟩
      · rw [hensure] at hi
        simp at hi
  exact hloop _ hdir

theorem createRealDirectoryAll_present (hpath : d.get path = some .dir) (hQ : Q (.ok ()) d) :
    (createRealDirectoryAll path).wp C Q d := by
  have hpresent : pathExistsNoFollow path d = .ok true := by
    rw [pathExistsNoFollow, Disk.stat_of_get hpath]
  rw [createRealDirectoryAll, Prog.wp_bind, Prog.wp_read, hpresent]
  dsimp only
  rw [if_pos rfl, Prog.wp_read, ensureRealDirectory_eq_ok.2 hpath]
  exact hQ

theorem within_removeDirAll (path : Path) (e : StorageError) :
    Prog.Within (below path) ∅ (removeDirAll path e) := by
  refine Prog.within_read_bind fun d order horder => ?_
  have hbelow : ∀ p ∈ order, path <+: p := by
    split at horder
    · obtain rfl := Except.ok.inj horder
      intro p hp
      exact (Disk.mem_removalOrder.1 hp).1
    · simp at horder
  refine Prog.within_each _ fun p hp => within_io fun s t h => ?_
  refine (Disk.confined_remove h).mono ?_ (Set.empty_subset _)
  intro q hq
  exact (hbelow p hp).trans hq

/-! ## Files -/

theorem within_writeAtomicFile {tmp path : Path} (hne : tmp ≠ path) (bytes : Bytes)
    (e : StorageError) :
    Prog.Within (below tmp ∪ below path) ∅ (writeAtomicFile tmp path bytes e) := by
  have htmp : below tmp ⊆ below tmp ∪ below path := Set.subset_union_left
  refine (within_io fun d t h => ?_).bind fun _ => (within_io fun d t h => ?_).bind fun _ =>
    (Prog.within_read _).bind fun _ => (within_io fun d t h => ?_).bind fun _ => Prog.within_read _
  · exact (Disk.confined_createNew h).mono htmp (Set.empty_subset _)
  · exact (Disk.confined_writeAll h).mono htmp (Set.empty_subset _)
  · exact Disk.confined_rename h hne

variable {bytes : Bytes}

/-- Nothing that is there goes but the file that is replaced. -/
theorem wp_writeAtomicFile {tmp path : Path} (hne : tmp ≠ path) :
    (writeAtomicFile tmp path bytes e).wp (fun _ => True) (fun r t =>
      (∀ q n, d.get q = some n → q ≠ path ∨ n = .dir → t.get q = some n) ∧
      (r ≠ .ok () → ∀ q n, d.get q = some n → t.get q = some n)) d := by
  rw [writeAtomicFile]
  refine wp_io_bind (fun t hcreate => ⟨trivial, ?_⟩) fun _ =>
    ⟨fun _ _ h _ => h, fun _ _ _ h => h⟩
  obtain ⟨hnone, hget⟩ := Disk.get_createNew hcreate
  have hnew {q : Path} {n : Node} (h : d.get q = some n) : q ≠ tmp := by
    rintro rfl
    rw [hnone] at h
    simp at h
  have ht {q : Path} {n : Node} (h : d.get q = some n) : t.get q = some n := by
    rw [hget, if_neg (hnew h), h]
  refine wp_io_bind (fun u hwrite => ⟨trivial, ?_⟩) fun _ =>
    ⟨fun _ _ h _ => ht h, fun _ _ _ h => ht h⟩
  have hu {q : Path} {n : Node} (h : d.get q = some n) : u.get q = some n := by
    rw [Disk.get_writeAll hwrite, if_neg (hnew h), ht h]
  have htmp : u.get tmp = some (.file bytes) := by
    rw [Disk.get_writeAll hwrite, if_pos rfl]
  rw [Prog.wp_read_bind]
  refine ⟨fun _ _ => ?_, fun _ _ => ⟨fun _ _ h _ => hu h, fun _ _ _ h => hu h⟩⟩
  refine wp_io_bind (fun v hrename => ⟨trivial, ?_⟩) fun _ =>
    ⟨fun _ _ h _ => hu h, fun _ _ _ h => hu h⟩
  have hv := (Disk.get_rename hrename hne).2
  have hfile : v.get path = some (.file bytes) := by
    rw [hv, if_pos (List.prefix_refl _), List.drop_length, List.append_nil, htmp]
  -- nothing was below a path that is not a directory
  have hkept {q : Path} {n : Node} (h : d.get q = some n) (hq : q ≠ path ∨ n = .dir) :
      v.get q = some n := by
    have hpath : ¬ path <+: q := by
      rintro ⟨r, rfl⟩
      cases r with
      | nil =>
        rw [List.append_nil] at h hq
        refine hq.elim (fun hne => hne rfl) ?_
        rintro rfl
        exact Disk.rename_replaces hrename htmp hne (hu h)
      | cons c r =>
        exact Disk.rename_replaces hrename htmp hne (Disk.get_of_append (hu h))
    have hsrc : ¬ tmp <+: q := by
      rintro ⟨r, rfl⟩
      rw [Disk.get_append_of_none hnone] at h
      simp at h
    rw [hv, if_neg hpath, if_neg hsrc, hu h]
  rw [Prog.wp_read]
  refine ⟨fun _ _ => hkept, fun hr => absurd ?_ hr⟩
  unfold fsyncParent
  split
  · rfl
  · rename_i hne
    have hparent : v.get (parentPath path) = some .dir := by
      rw [← List.dropLast_append_getLast hne] at hfile
      exact Disk.get_of_append hfile
    rw [syncDirectory, Disk.stat_of_get hparent]

/-- Making the temporary file, and what follows. -/
theorem wp_newFile {α : Type} {tmp : Path} {g : Unit → StorageProg α}
    {Q : StorageResult α → Disk → Prop} (htaken : ¬ d.Free tmp → Q (.error e) d)
    (h : d.Free tmp → ∀ u, (∀ q, u.get q = if q = tmp then some (.file bytes) else d.get q) →
      (g ()).wp (fun _ => True) Q u) :
    Prog.wp (io (Disk.createNew · tmp) e >>= fun _ => io (Disk.writeAll · tmp bytes) e >>= g)
      (fun _ => True) Q d := by
  refine wp_io_bind (fun t hcreate => ⟨trivial, ?_⟩) fun hi => htaken fun hfree => ?_
  swap
  · obtain ⟨t, ht⟩ := Disk.createNew_ok hfree
    simp [ht] at hi
  have hfree : d.Free tmp := by
    unfold Disk.createNew at hcreate
    split at hcreate
    · assumption
    · cases hcreate
  have ht := (Disk.get_createNew hcreate).2
  have hempty : t.get tmp = some (.file []) := by rw [ht, if_pos rfl]
  refine wp_io_bind (fun u hwrite => ⟨trivial, h hfree u fun q => ?_⟩) fun hi => ?_
  · rw [Disk.get_writeAll hwrite]
    by_cases hq : q = tmp
    · rw [if_pos hq, if_pos hq]
    · rw [if_neg hq, if_neg hq, ht, if_neg hq]
  · obtain ⟨u, hu⟩ := Disk.writeAll_ok bytes hempty
    simp [hu] at hi

/-- **A write replaces the file**, or the name of its temporary file was taken and nothing happened:
when no directory stands in its place, the temporary file does not stay behind. -/
theorem wp_writeAtomicFile_replaces {a b : String} (hne : a ≠ b) (hclear : Clear d (p ++ [b]))
    (hdir : d.get (p ++ [b]) ≠ some .dir) :
    (writeAtomicFile (p ++ [a]) (p ++ [b]) bytes e).wp (fun _ => True) (fun r t =>
      (r = .ok () ∧ ∀ q, t.get q = if q = p ++ [b] then some (.file bytes) else d.get q) ∨
        r ≠ .ok () ∧ ¬ d.Free (p ++ [a]) ∧ t = d) d := by
  have hdiff : p ++ [a] ≠ p ++ [b] := by simpa using hne
  rw [writeAtomicFile]
  refine wp_newFile (fun htaken => Or.inr ⟨by simp, htaken, rfl⟩) fun hfree u hu => ?_
  have hnone := hfree.2.1
  have hnew : u.get (p ++ [a]) = some (.file bytes) := by rw [hu, if_pos rfl]
  have hold : u.get (p ++ [b]) = d.get (p ++ [b]) := by rw [hu, if_neg hdiff.symm]
  have hparent : u.get p = some .dir := Disk.get_of_append hnew
  have hname := isName_of_clear hclear
  -- what stands at the place is a file, or it is free
  have hready : rejectLinkIfPresent (p ++ [b]) e u = .ok () ∧
      ∃ v, u.rename (p ++ [a]) (p ++ [b]) = .ok v := by
    cases hplace : d.get (p ++ [b]) with
    | none =>
      rw [hplace] at hold
      have hstat := Disk.stat_missing hparent hname hold
      refine ⟨by rw [rejectLinkIfPresent, hstat], ?_⟩
      exact Disk.rename_ok hnew (by simp) hparent hname hold (apart_concat hne).1
    | some n =>
      rw [hplace] at hold hdir
      cases n with
      | dir => exact absurd rfl hdir
      | file content =>
        refine ⟨by rw [rejectLinkIfPresent, Disk.stat_of_get hold], ?_⟩
        exact Disk.rename_file_ok hnew hold hdiff
  obtain ⟨hlink, v, hv⟩ := hready
  rw [Prog.wp_read_bind]
  refine ⟨fun _ _ => ?_, fun e' he' => ?_⟩
  swap
  · rw [hlink] at he'
    cases he'
  refine wp_io_bind (fun w hrename => ⟨trivial, ?_⟩) fun ⟨i, hi⟩ => ?_
  swap
  · rw [hv] at hi
    cases hi
  have hw := (Disk.get_rename hrename hdiff).2
  have hget (q : Path) : w.get q = if q = p ++ [b] then some (.file bytes) else d.get q := by
    rw [hw]
    by_cases hbelow : p ++ [b] <+: q
    · obtain ⟨r, rfl⟩ := hbelow
      rw [if_pos (List.prefix_append _ _), List.drop_left]
      cases r with
      | nil => rw [List.append_nil, List.append_nil, if_pos rfl, hnew]
      | cons c r =>
        -- nothing is below a file
        rw [Disk.get_append_of_file hnew (List.cons_ne_nil c r), if_neg (by simp)]
        cases hplace : d.get (p ++ [b]) with
        | none => rw [Disk.get_append_of_none hplace]
        | some n =>
          rw [hplace] at hdir
          cases n with
          | dir => exact absurd rfl hdir
          | file content => rw [Disk.get_append_of_file hplace (List.cons_ne_nil c r)]
    · have hq : q ≠ p ++ [b] := by
        rintro rfl
        exact hbelow (List.prefix_refl _)
      rw [if_neg hbelow, if_neg hq]
      by_cases htmp : p ++ [a] <+: q
      · obtain ⟨r, rfl⟩ := htmp
        rw [if_pos (List.prefix_append _ _), Disk.get_append_of_none hnone]
      · have hq : q ≠ p ++ [a] := by
          rintro rfl
          exact htmp (List.prefix_refl _)
        rw [if_neg htmp, hu, if_neg hq]
  rw [Prog.wp_read]
  refine Or.inl ⟨?_, hget⟩
  have hdirectory : w.get p = some .dir := by
    have hfile : w.get (p ++ [b]) = some (.file bytes) := by rw [hget, if_pos rfl]
    exact Disk.get_of_append hfile
  rw [fsyncParent, if_neg (by simp), parentPath, List.dropLast_concat, syncDirectory,
    Disk.stat_of_get hdirectory]

/-- **A file does not replace a directory**, and its temporary file stays where it could be made. -/
theorem wp_writeAtomicFile_onto {a b : String} (hne : a ≠ b) (hdir : d.get (p ++ [b]) = some .dir) :
    (writeAtomicFile (p ++ [a]) (p ++ [b]) bytes e).wp (fun _ => True) (fun r t =>
      r = .error e ∧ (¬ d.Free (p ++ [a]) ∧ t = d ∨ d.Free (p ++ [a]) ∧
        ∀ q, t.get q = if q = p ++ [a] then some (.file bytes) else d.get q)) d := by
  have hdiff : p ++ [a] ≠ p ++ [b] := by simpa using hne
  rw [writeAtomicFile]
  refine wp_newFile (fun htaken => ⟨rfl, .inl ⟨htaken, rfl⟩⟩) fun hfree u hu => ?_
  have hnew : u.get (p ++ [a]) = some (.file bytes) := by rw [hu, if_pos rfl]
  have hold : u.get (p ++ [b]) = some .dir := by rw [hu, if_neg hdiff.symm, hdir]
  rw [Prog.wp_read_bind]
  refine ⟨fun _ _ => ?_, fun e' he' => ?_⟩
  · refine wp_io_bind (fun v hrename => ?_) fun _ => ⟨rfl, .inr ⟨hfree, hu⟩⟩
    exact absurd hold (Disk.rename_replaces hrename hnew hdiff)
  · rw [rejectLinkIfPresent, Disk.stat_of_get hold] at he'
    cases he'

theorem tmpPathFor_ne {stamp : String} : tmpPathFor path stamp ≠ path := by
  intro h
  rw [tmpPathFor, withFileName] at h
  have hlast : path.getLast? = some (path.getLast?.getD "tmp" ++ "." ++ stamp ++ ".tmp") := by
    conv_lhs => rw [← h]
    simp
  cases hpath : path.getLast? with
  | none => simp [hpath] at hlast
  | some name =>
    rw [hpath, Option.getD_some] at hlast
    have hlength := congrArg String.length (Option.some.inj hlast)
    simp only [String.length_append] at hlength
    have hdot : (".tmp" : String).length = 4 := by decide
    omega

/-! ## The traversal -/

/-- Strictly below a path. -/
def Inside (root q : Path) : Prop := ∃ c r, q = root ++ c :: r

variable {entries : List (Path × Node)}

theorem visitEntries_eq_ok {depth : Nat} {t t' : Traversal}
    (h : visitEntries depth entries t = .ok t') :
    t'.entries = t.entries ++ entries ∧ (∀ e ∈ t.pending, e ∈ t'.pending) ∧
      ∀ p, (p, Node.dir) ∈ entries → (p, depth + 1) ∈ t'.pending := by
  fun_induction visitEntries depth entries t with
  | case1 t =>
    obtain rfl := Except.ok.inj h
    simp
  | case2 => simp at h
  | case3 => simp at h
  | case4 => simp at h
  | case5 t path rest _ _ _ ih =>
    obtain ⟨hentries, hpending, hdirs⟩ := ih h
    refine ⟨by simp [hentries], fun e he => hpending e (List.mem_cons_of_mem _ he), ?_⟩
    intro p hp
    rcases List.mem_cons.1 hp with heq | hp
    · obtain rfl := (Prod.mk.inj heq).1
      exact hpending _ List.mem_cons_self
    · exact hdirs p hp
  | case6 t path rest _ content ih =>
    obtain ⟨hentries, hpending, hdirs⟩ := ih h
    refine ⟨by simp [hentries], hpending, fun p hp => ?_⟩
    rcases List.mem_cons.1 hp with heq | hp
    · simp at heq
    · exact hdirs p hp

/-- Each round of the traversal leaves nothing out: what is still to be found is inside a
directory that is still to be read. -/
theorem mem_traverse {root : Path} {fuel : Nat} {t : Traversal}
    (h : traverse d fuel t = .ok entries) (hleft : ∀ q n, Inside root q → d.get q = some n →
      (q, n) ∈ t.entries ∨ ∃ e ∈ t.pending, Inside e.1 q) :
    ∀ q n, Inside root q → d.get q = some n → (q, n) ∈ entries := by
  induction fuel generalizing t with
  | zero => simp [traverse] at h
  | succ fuel ih =>
    rw [traverse] at h
    split at h
    · rename_i hpending
      obtain rfl := Except.ok.inj h
      intro q n hq hn
      refine (hleft q n hq hn).resolve_right ?_
      rw [hpending]
      simp
    · rename_i directory depth pending hpending
      split at h
      · simp at h
      split at h
      · simp at h
      rename_i t' hvisit
      obtain ⟨hentries, hkept, hdirs⟩ := visitEntries_eq_ok hvisit
      refine ih h fun q n hq hn => ?_
      rcases hleft q n hq hn with hfound | ⟨e, he, hin⟩
      · exact .inl (hentries ▸ List.mem_append_left _ hfound)
      · rw [hpending] at he
        rcases List.mem_cons.1 he with rfl | he
        · obtain ⟨c, r, rfl⟩ := hin
          cases r with
          | nil =>
            left
            rw [hentries]
            exact List.mem_append_right _ (Disk.mem_entries.2 ⟨c, rfl, hn⟩)
          | cons c' r =>
            have hbelow : d.get ((directory ++ [c]) ++ c' :: r) = some n := by simpa using hn
            have hdir := Disk.get_of_append hbelow
            right
            exact ⟨_, hdirs _ (Disk.mem_entries.2 ⟨c, rfl, hdir⟩), c', r, by simp⟩
        · exact .inr ⟨e, hkept e he, hin⟩

theorem boundedTreeEntries_eq_ok {root : Path} (h : boundedTreeEntries root d = .ok entries) :
    d.get root = some .dir ∧
      ∀ q n, Inside root q → d.get q = some n → (q, n) ∈ entries := by
  unfold boundedTreeEntries at h
  split at h
  · simp at h
  rename_i hroot
  refine ⟨ensureRealDirectory_eq_ok.1 hroot, mem_traverse h fun q n hq _ => ?_⟩
  exact .inr ⟨(root, 0), List.mem_singleton.2 rfl, hq⟩

end AppCore.Storage
