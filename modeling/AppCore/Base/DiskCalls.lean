import AppCore.Base.Disk

/-!
# System calls

The calls a program makes on a disk, with their error kinds. For each of them there is a lemma
that says what is found at every path after it succeeded, and where a later proof needs the call
to succeed, the condition under which it does.
-/

namespace AppCore

/-- The kinds of error a system call has. -/
inductive IoError where
  | notFound
  | notADirectory
  | isADirectory
  | alreadyExists
  | directoryNotEmpty
  | invalidInput
  deriving DecidableEq, Repr

namespace Disk

/-- Whether a file stands on the way to a path. -/
def blocked (d : Disk) (p : Path) : Bool :=
  d.nodes.any fun e => e.2 ≠ .dir && decide (e.1 <+: p) && e.1 ≠ p

/-- `symlink_metadata`. -/
def stat (d : Disk) (p : Path) : Except IoError Node :=
  match d.get p with
  | some n => .ok n
  | none =>
    if !p.all isName then .error .invalidInput
    else if d.blocked p then .error .notADirectory
    else .error .notFound

/-- Why nothing can be created at a path. -/
def createError (d : Disk) (p : Path) : IoError :=
  match d.stat p with
  | .ok _ => .alreadyExists
  | .error e => e

def createDir (d : Disk) (p : Path) : Except IoError Disk :=
  if h : d.Free p then .ok (d.add p .dir h) else .error (d.createError p)

/-- Opening with `create_new`: an empty file. -/
def createNew (d : Disk) (p : Path) : Except IoError Disk :=
  if h : d.Free p then .ok (d.add p (.file []) h) else .error (d.createError p)

/-- Opening with `create`, without truncation: the file is made when it is missing. -/
def openCreate (d : Disk) (p : Path) : Except IoError Disk :=
  match d.stat p with
  | .ok (.file _) => .ok d
  | .ok .dir => .error .isADirectory
  | .error .notFound => d.createNew p
  | .error e => .error e

/-- The content of a new file, written through its handle. -/
def writeAll (d : Disk) (p : Path) (content : Bytes) : Except IoError Disk :=
  if h : (d.get p).isSome ∧ d.get p ≠ some .dir then .ok (d.write p content h)
  else .error .notFound

/-- The content of a regular file. -/
def readFile (d : Disk) (p : Path) : Except IoError Bytes :=
  match d.stat p with
  | .ok (.file content) => .ok content
  | .ok .dir => .error .invalidInput
  | .error e => .error e

/-- `remove_file` and `remove_dir`: one entry without anything below it. -/
def remove (d : Disk) (p : Path) : Except IoError Disk :=
  if h : d.Leaf p then .ok (d.erase p h) else .error .directoryNotEmpty

/-- A move to a place that is free. -/
def moveTo (d : Disk) (src dst : Path) : Except IoError Disk :=
  if h : d.Movable src dst then .ok (d.move src dst h) else .error .notFound

/-- `rename`: a file replaces a file, a directory replaces an empty directory. -/
def rename (d : Disk) (src dst : Path) : Except IoError Disk :=
  match d.stat src with
  | .error e => .error e
  | .ok n =>
    if src = dst then .ok d
    else if src <+: dst then .error .invalidInput
    else match d.stat dst, n with
      | .error .notFound, _ => d.moveTo src dst
      | .error e, _ => .error e
      | .ok (.file _), .dir => .error .notADirectory
      | .ok .dir, .file _ => .error .isADirectory
      | .ok _, _ =>
        match d.remove dst with
        | .error e => .error e
        | .ok d => d.moveTo src dst

/-- The entries of a directory. -/
def entries (d : Disk) (p : Path) : List (Path × Node) :=
  d.nodes.filter fun e => e.1 ≠ [] && e.1.dropLast = p

/-- The paths at and below a directory, each after those below it. -/
def removalOrder (d : Disk) (p : Path) : List Path :=
  ((d.nodes.map Prod.fst).filter fun q => decide (p <+: q)).insertionSort
    fun q r => r.length ≤ q.length

variable {p : Path} {d : Disk} {n : Node}

theorem stat_eq_ok : d.stat p = .ok n ↔ d.get p = some n := by
  unfold stat
  cases d.get p with
  | some m => simp
  | none =>
    dsimp only
    split
    · simp
    split <;> simp

theorem stat_of_get (h : d.get p = some n) : d.stat p = .ok n :=
  stat_eq_ok.2 h

variable {c : String}

/-- Below a directory, a name that is not there is reported as missing. -/
theorem stat_missing (hp : d.get p = some .dir) (hc : isName c = true) (h : d.get (p ++ [c]) = none) :
    
    d.stat (p ++ [c]) = .error .notFound := by
  have hnames : (p ++ [c]).all isName = true := by
    rw [List.all_append, Bool.and_eq_true]
    exact ⟨List.all_eq_true.2 (isName_of_get hp), by simpa using hc⟩
  have hblocked : d.blocked (p ++ [c]) = false := by
    rw [Bool.eq_false_iff]
    intro hany
    simp only [blocked, List.any_eq_true, Bool.and_eq_true, decide_eq_true_eq] at hany
    obtain ⟨⟨q, n⟩, hmem, ⟨hn, hinit⟩, hne⟩ := hany
    -- a node on the way is a directory, because `p` is
    have hq : q <+: p := (List.prefix_concat_iff.1 hinit).resolve_left hne
    obtain ⟨r, rfl⟩ := hq
    cases r with
    | nil =>
      rw [List.append_nil, get_eq_some.2 hmem] at hp
      exact hn (Option.some.inj hp)
    | cons c' r =>
      have hdir := get_of_append hp
      rw [get_eq_some.2 hmem] at hdir
      exact hn (Option.some.inj hdir)
  simp [stat, h, hnames, hblocked]

/-! ## New leaves -/

theorem get_createDir {d e : Disk} (h : d.createDir p = .ok e) :
    d.get p = none ∧ ∀ q, e.get q = if q = p then some .dir else d.get q := by
  unfold createDir at h
  split at h
  · rename_i hfree
    cases h
    exact ⟨hfree.2.1, get_add hfree⟩
  · simp at h

theorem get_createNew {d e : Disk} (h : d.createNew p = .ok e) :
    d.get p = none ∧ ∀ q, e.get q = if q = p then some (.file []) else d.get q := by
  unfold createNew at h
  split at h
  · rename_i hfree
    cases h
    exact ⟨hfree.2.1, get_add hfree⟩
  · simp at h

theorem free_concat (hp : d.get p = some .dir) (hc : isName c = true) (h : d.get (p ++ [c]) = none) :
    d.Free (p ++ [c]) := by
  refine ⟨by simp, h, by rwa [List.dropLast_concat], ?_⟩
  intro x hx
  rcases List.mem_append.1 hx with hx | hx
  · exact isName_of_get hp x hx
  · rw [List.mem_singleton.1 hx]
    exact hc

theorem createNew_ok (h : d.Free p) : ∃ e, d.createNew p = .ok e :=
  ⟨d.add p (.file []) h, dif_pos h⟩

theorem get_openCreate {d e : Disk} (h : d.openCreate p = .ok e) :
    (∃ b, e.get p = some (.file b)) ∧ (∀ q, q ≠ p → e.get q = d.get q) ∧
      (d.get p ≠ none → e = d) := by
  unfold openCreate at h
  split at h
  · rename_i b hstat
    cases h
    exact ⟨⟨b, stat_eq_ok.1 hstat⟩, fun _ _ => rfl, fun _ => rfl⟩
  · simp at h
  · rename_i hstat
    obtain ⟨hnone, hget⟩ := get_createNew h
    refine ⟨⟨[], by simp [hget]⟩, fun q hq => by simp [hget, hq], fun hsome => absurd hnone hsome⟩
  · simp at h

theorem get_writeAll {d e : Disk} {content : Bytes} (h : d.writeAll p content = .ok e) :
    ∀ q, e.get q = if q = p then some (.file content) else d.get q := by
  unfold writeAll at h
  split at h
  · rename_i hfile
    cases h
    exact get_write hfile
  · simp at h

variable {b : Bytes}

theorem writeAll_ok (content : Bytes) (h : d.get p = some (.file b)) :
    ∃ e, d.writeAll p content = .ok e :=
  ⟨d.write p content (by simp [h]), dif_pos (by simp [h])⟩

theorem readFile_eq_ok :
    d.readFile p = .ok b ↔ d.get p = some (.file b) := by
  unfold readFile
  cases hstat : d.stat p with
  | error e =>
    have hne : d.get p ≠ some (.file b) := by
      intro hget
      rw [stat_of_get hget] at hstat
      simp at hstat
    simp [hne]
  | ok n =>
    rw [stat_eq_ok.1 hstat]
    cases n <;> simp

/-! ## Removing and moving -/

theorem get_remove {d e : Disk} (h : d.remove p = .ok e) :
    ∀ q, e.get q = if q = p then none else d.get q := by
  unfold remove at h
  split at h
  · rename_i hleaf
    cases h
    exact get_erase hleaf
  · simp at h

theorem remove_ok (hne : p ≠ []) (h : ∀ r, r ≠ [] → d.get (p ++ r) = none) :
    ∃ e, d.remove p = .ok e := by
  have hleaf : d.Leaf p := by
    refine ⟨hne, ?_⟩
    rintro ⟨q, n⟩ hmem ⟨r, rfl⟩
    by_cases hr : r = []
    · simp [hr]
    · have hnone := h r hr
      rw [get_eq_some.2 hmem] at hnone
      simp at hnone
  exact ⟨d.erase p hleaf, dif_pos hleaf⟩

variable {src dst : Path}

theorem get_moveTo {d e : Disk} (h : d.moveTo src dst = .ok e) :
    ¬ src <+: dst ∧ d.get dst = none ∧ ∀ q, e.get q =
      if dst <+: q then d.get (src ++ q.drop dst.length)
      else if src <+: q then none else d.get q := by
  unfold moveTo at h
  split at h
  · rename_i hmovable
    cases h
    exact ⟨hmovable.2.2.1, hmovable.2.2.2.2.1, get_move hmovable⟩
  · simp at h

/-- **What a rename does** when source and destination differ. -/
theorem get_rename {d e : Disk} (h : d.rename src dst = .ok e) (hne : src ≠ dst) :
    ¬ src <+: dst ∧ ∀ q, e.get q =
      if dst <+: q then d.get (src ++ q.drop dst.length)
      else if src <+: q then none else d.get q := by
  unfold rename at h
  split at h
  · simp at h
  rename_i n hsrc
  rw [if_neg hne] at h
  by_cases hinside : src <+: dst
  · simp [hinside] at h
  rw [if_neg hinside] at h
  refine ⟨hinside, ?_⟩
  split at h
  · exact (get_moveTo h).2.2
  · simp at h
  · simp at h
  · simp at h
  · split at h
    · simp at h
    rename_i d' hremove
    have hd' := get_remove hremove
    obtain ⟨-, hnone, hget⟩ := get_moveTo h
    intro q
    rw [hget q]
    by_cases hdst : dst <+: q
    · have hsrc' : src ++ q.drop dst.length ≠ dst := fun heq => hinside ⟨_, heq⟩
      rw [if_pos hdst, if_pos hdst, hd', if_neg hsrc']
    · have hq : q ≠ dst := by
        rintro rfl
        exact hdst (List.prefix_refl _)
      rw [if_neg hdst, if_neg hdst, hd', if_neg hq]

theorem rename_replaces {d e : Disk} (h : d.rename src dst = .ok e)
    (hsrc : d.get src = some (.file b)) (hne : src ≠ dst) : d.get dst ≠ some .dir := by
  intro hdst
  unfold rename at h
  rw [stat_of_get hsrc, stat_of_get hdst] at h
  simp only [if_neg hne] at h
  split at h <;> simp at h

theorem rename_ok {src p : Path} (hsrc : d.get src = some n) (hne : src ≠ [])
    (hp : d.get p = some .dir) (hc : isName c = true) (hdst : d.get (p ++ [c]) = none)
    (hinside : ¬ src <+: p ++ [c]) :
    ∃ e, d.rename src (p ++ [c]) = .ok e := by
  have hmovable : d.Movable src (p ++ [c]) :=
    ⟨hne, by simp [hsrc], hinside, free_concat hp hc hdst⟩
  have hdiff : src ≠ p ++ [c] := by
    rintro rfl
    exact hinside (List.prefix_refl _)
  refine ⟨d.move src (p ++ [c]) hmovable, ?_⟩
  unfold rename
  rw [stat_of_get hsrc, stat_missing hp hc hdst]
  simp only [if_neg hdiff, if_neg hinside]
  exact dif_pos hmovable

/-- A file replaces a file. -/
theorem rename_file_ok {b c : Bytes} (hsrc : d.get src = some (.file b))
    (hdst : d.get dst = some (.file c)) (hne : src ≠ dst) : ∃ e, d.rename src dst = .ok e := by
  have hroot : dst ≠ [] := by
    intro hnil
    rw [hnil, get_root] at hdst
    cases hdst
  have hinside : ¬ src <+: dst := by
    intro h
    obtain ⟨r, hr⟩ := h
    subst hr
    have hr : r ≠ [] := by
      intro hnil
      exact hne (by rw [hnil, List.append_nil])
    rw [get_append_of_file hsrc hr] at hdst
    cases hdst
  obtain ⟨t, ht⟩ := remove_ok hroot fun r hr => get_append_of_file hdst hr
  have hget := get_remove ht
  obtain ⟨p, name, hpath⟩ : ∃ p name, dst = p ++ [name] :=
    ⟨dst.dropLast, dst.getLast hroot, (List.dropLast_append_getLast hroot).symm⟩
  have hparent : t.get p = some .dir := by
    have hp : p ≠ dst := by
      rw [hpath]
      simp
    rw [hget, if_neg hp]
    exact get_of_append (hpath ▸ hdst)
  have hname : isName name = true := isName_of_get hdst name (by simp [hpath])
  have hmovable : t.Movable src dst := by
    refine ⟨?_, ?_, hinside, ?_⟩
    · intro hnil
      exact hinside (hnil ▸ List.nil_prefix)
    · rw [hget, if_neg hne, hsrc]
      simp
    · rw [hpath]
      apply free_concat hparent hname
      rw [← hpath, hget, if_pos rfl]
  refine ⟨t.move src dst hmovable, ?_⟩
  unfold rename
  rw [stat_of_get hsrc, stat_of_get hdst]
  simp only [if_neg hne, if_neg hinside, ht]
  exact dif_pos hmovable

theorem get_rename_file {d e : Disk} {b c : Bytes} (h : d.rename src dst = .ok e)
    (hsrc : d.get src = some (.file b)) (hdst : d.get dst = some (.file c)) (hne : src ≠ dst)
    (q : Path) :
    e.get q = if q = dst then some (.file b) else if q = src then none else d.get q := by
  rw [(get_rename h hne).2]
  by_cases hqdst : q = dst
  · rw [if_pos hqdst, if_pos (hqdst ▸ List.prefix_refl dst), hqdst, List.drop_length,
      List.append_nil, hsrc]
  · rw [if_neg hqdst]
    by_cases hbelow : dst <+: q
    · obtain ⟨r, hr⟩ := hbelow
      subst hr
      have hr : r ≠ [] := by
        intro hnil
        exact hqdst (by rw [hnil, List.append_nil])
      rw [if_pos (List.prefix_append _ _), List.drop_left, get_append_of_file hsrc hr,
        get_append_of_file hdst hr, ite_self]
    · rw [if_neg hbelow]
      by_cases hqsrc : q = src
      · rw [if_pos hqsrc, if_pos (hqsrc ▸ List.prefix_refl src)]
      · rw [if_neg hqsrc]
        by_cases hinside : src <+: q
        · obtain ⟨r, hr⟩ := hinside
          subst hr
          have hr : r ≠ [] := by
            intro hnil
            exact hqsrc (by rw [hnil, List.append_nil])
          rw [if_pos (List.prefix_append _ _), get_append_of_file hsrc hr]
        · rw [if_neg hinside]

theorem mem_entries {p q : Path} :
    (q, n) ∈ d.entries p ↔ ∃ c, q = p ++ [c] ∧ d.get q = some n := by
  rw [entries, List.mem_filter, get_eq_some]
  constructor
  · rintro ⟨hmem, hpath⟩
    rw [Bool.and_eq_true, decide_eq_true_eq, decide_eq_true_eq] at hpath
    obtain ⟨hne, rfl⟩ := hpath
    exact ⟨q.getLast hne, (List.dropLast_append_getLast hne).symm, hmem⟩
  · rintro ⟨c, rfl, hmem⟩
    simp [hmem]

theorem mem_removalOrder {p q : Path} :
    q ∈ d.removalOrder p ↔ p <+: q ∧ d.get q ≠ none := by
  rw [removalOrder, (List.perm_insertionSort _ _).mem_iff, List.mem_filter, List.mem_map,
    decide_eq_true_eq, Option.ne_none_iff_exists']
  constructor
  · rintro ⟨⟨⟨q, n⟩, hmem, rfl⟩, hinit⟩
    exact ⟨hinit, n, get_eq_some.2 hmem⟩
  · rintro ⟨hinit, n, hget⟩
    exact ⟨⟨(q, n), get_eq_some.1 hget, rfl⟩, hinit⟩

end Disk

end AppCore
