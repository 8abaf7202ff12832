import AppCore.Base.Cursor
import AppCore.Base.PathText

/-!
# Paths through symbolic links

A file system with symbolic links, permission bits and owners, as the calls that look a path up see
it. A path is a list of steps from a directory on. Each step needs a directory to start from, and a
link on the way puts its target in place of its name; the number of links that may be followed is
bounded.

* `walk_append` — the steps of a path, one part after the other.
-/

namespace AppCore

/-- A step of a path as it is written. -/
inductive PathStep where
  | root
  | here
  | up
  | name (name : String)
  deriving DecidableEq, Repr

/-- The permission bits and the owner. -/
structure Access where
  mode : UInt32
  owner : UInt32
  deriving DecidableEq, Repr

/-- What is found at a path, a link itself included. -/
inductive Inode where
  | dir (access : Access)
  | file (content : Bytes) (access : Access)
  | link (target : List PathStep)
  deriving DecidableEq, Repr

/-- Why a path leads nowhere. -/
inductive WalkError where
  | notFound
  | notADirectory
  | tooManyLinks
  deriving DecidableEq, Repr

/-- A file system, and the process that looks at it. -/
structure FileSystem where
  find : Path → Option Inode
  cwd : Path
  euid : UInt32

namespace FileSystem

/-- The links that one call follows. -/
def maxLinks : ℕ := 40

/-- A directory, and not a link to one. -/
def isDir (fs : FileSystem) (p : Path) : Bool :=
  match fs.find p with
  | some (.dir _) => true
  | _ => false

def isLink (fs : FileSystem) (p : Path) : Bool :=
  match fs.find p with
  | some (.link _) => true
  | _ => false

/-- Where the steps lead from a directory, every link followed, and how many more may be. -/
def walk (fs : FileSystem) : ℕ → Path → List PathStep → Except WalkError (ℕ × Path)
  | links, p, [] => .ok (links, p)
  | links, _, .root :: rest => walk fs links [] rest
  | links, p, .here :: rest => if fs.isDir p then walk fs links p rest else .error .notADirectory
  | links, p, .up :: rest =>
    if fs.isDir p then walk fs links p.dropLast rest else .error .notADirectory
  | links, p, .name s :: rest =>
    if fs.isDir p then
      match fs.find (p ++ [s]), links with
      | none, _ => .error .notFound
      | some (.link _), 0 => .error .tooManyLinks
      | some (.link target), links + 1 => walk fs links p (target ++ rest)
      | some _, links => walk fs links (p ++ [s]) rest
    else .error .notADirectory
  termination_by links _ steps => (links, steps.length)

def canonicalize (fs : FileSystem) (path : List PathStep) : Except WalkError Path :=
  (fs.walk maxLinks fs.cwd path).map Prod.snd

/-- The path that a call ends at when it does not follow a link there. -/
def reach (fs : FileSystem) (path : List PathStep) : Except WalkError Path :=
  match path.getLast? with
  | some (.name s) => do
      let (_, dir) ← fs.walk maxLinks fs.cwd path.dropLast
      if fs.isDir dir then
        if (fs.find (dir ++ [s])).isSome then .ok (dir ++ [s]) else .error .notFound
      else .error .notADirectory
  | _ => fs.canonicalize path

/-- `fs::symlink_metadata`, with the content. -/
def symlinkMetadata (fs : FileSystem) (path : List PathStep) : Except WalkError Inode := do
  let p ← fs.reach path
  match fs.find p with
  | none => .error .notFound
  | some node => .ok node

/-- `open` with `O_NOFOLLOW`. -/
def openNoFollow (fs : FileSystem) (path : List PathStep) : Except WalkError Path := do
  let p ← fs.reach path
  if fs.isLink p then .error .tooManyLinks else .ok p

variable {fs : FileSystem}

@[simp] theorem walk_nil (links : ℕ) (p : Path) : fs.walk links p [] = .ok (links, p) := by
  rw [walk]

variable {p : Path} {links : ℕ}

theorem walk_not_dir {step : PathStep} (hroot : step ≠ .root) (hdir : ¬ fs.isDir p = true)
    (rest : List PathStep) :
    fs.walk links p (step :: rest) = .error .notADirectory := by
  cases step with
  | root => exact absurd rfl hroot
  | here => simp [walk, hdir]
  | up => simp [walk, hdir]
  | name s =>
    rw [walk.eq_def]
    exact if_neg hdir

theorem walk_here (hdir : fs.isDir p = true) (rest : List PathStep) :
    fs.walk links p (.here :: rest) = fs.walk links p rest := by
  rw [walk, if_pos hdir]

theorem walk_up (hdir : fs.isDir p = true) (rest : List PathStep) :
    fs.walk links p (.up :: rest) = fs.walk links p.dropLast rest := by
  rw [walk, if_pos hdir]

variable {s : String}

theorem walk_missing (hdir : fs.isDir p = true) (hnone : fs.find (p ++ [s]) = none)
    (rest : List PathStep) :
    fs.walk links p (.name s :: rest) = .error .notFound := by
  rw [walk.eq_def]
  simp only [hdir, if_true, hnone]

theorem walk_link {target : List PathStep} (hdir : fs.isDir p = true)
    (hlink : fs.find (p ++ [s]) = some (.link target)) (rest : List PathStep) :
    fs.walk (links + 1) p (.name s :: rest) = fs.walk links p (target ++ rest) := by
  rw [walk.eq_def]
  simp only [hdir, if_true, hlink]

theorem walk_links_used {target : List PathStep} (hdir : fs.isDir p = true)
    (hlink : fs.find (p ++ [s]) = some (.link target)) (rest : List PathStep) :
    fs.walk 0 p (.name s :: rest) = .error .tooManyLinks := by
  rw [walk.eq_def]
  simp only [hdir, if_true, hlink]

theorem walk_name (hdir : fs.isDir p = true) (hfound : (fs.find (p ++ [s])).isSome = true)
    (hlink : fs.isLink (p ++ [s]) = false) (rest : List PathStep) :
    fs.walk links p (.name s :: rest) = fs.walk links (p ++ [s]) rest := by
  obtain ⟨node, hnode⟩ := Option.isSome_iff_exists.1 hfound
  rw [walk.eq_def]
  cases node with
  | dir access => simp only [hdir, if_true, hnode]
  | file content access => simp only [hdir, if_true, hnode]
  | link target =>
    rw [isLink, hnode] at hlink
    cases hlink

/-- A path in two parts: the second goes on where the first leads, with the links left over. -/
theorem walk_append (links : ℕ) (p : Path) (a b : List PathStep) :
    fs.walk links p (a ++ b) = fs.walk links p a >>= fun r => fs.walk r.1 r.2 b := by
  induction links, p, a using walk.induct fs with
  | case1 links p =>
    rw [walk_nil]
    rfl
  | case2 links p rest ih => rw [List.cons_append, walk, ih, walk]
  | case3 links p rest hdir ih => rw [List.cons_append, walk_here hdir, ih, walk_here hdir]
  | case4 links p rest hdir =>
    rw [List.cons_append, walk_not_dir (by decide) hdir, walk_not_dir (by decide) hdir]
    rfl
  | case5 links p rest hdir ih => rw [List.cons_append, walk_up hdir, ih, walk_up hdir]
  | case6 links p rest hdir =>
    rw [List.cons_append, walk_not_dir (by decide) hdir, walk_not_dir (by decide) hdir]
    rfl
  | case7 links p s rest hdir hnone =>
    rw [List.cons_append, walk_missing hdir hnone, walk_missing hdir hnone]
    rfl
  | case8 p s rest hdir target hlink =>
    rw [List.cons_append, walk_links_used hdir hlink, walk_links_used hdir hlink]
    rfl
  | case9 p s rest hdir target links hlink ih =>
    -- The rest of the path stands behind the target of the link.
    rw [List.cons_append, walk_link hdir hlink, ← List.append_assoc, ih, walk_link hdir hlink]
  | case10 p s rest hdir node links hzero hsucc hfound ih =>
    have hlink : fs.isLink (p ++ [s]) = false := by
      cases node with
      | dir access => rw [isLink, hfound]
      | file content access => rw [isLink, hfound]
      | link target =>
        cases links with
        | zero => exact (hzero target rfl rfl).elim
        | succ links => exact (hsucc target links rfl rfl).elim
    have hsome : (fs.find (p ++ [s])).isSome = true := by
      rw [hfound]
      rfl
    rw [List.cons_append, walk_name hdir hsome hlink, ih, walk_name hdir hsome hlink]
  | case11 links p s rest hdir =>
    have hroot : PathStep.name s ≠ .root := fun h => by cases h
    rw [List.cons_append, walk_not_dir hroot hdir, walk_not_dir hroot hdir]
    rfl

theorem walk_concat {links links' : ℕ} {p q : Path} {path : List PathStep}
    (h : fs.walk links p path = .ok (links', q)) (step : PathStep) :
    fs.walk links p (path ++ [step]) = fs.walk links' q [step] := by
  rw [walk_append, h]
  rfl

/-- The names of a path, the steps that stay left out. -/
def stepNames (steps : List PathStep) : List String :=
  steps.filterMap fun step => match step with
    | .name s => some s
    | _ => none

/-- Every name is found below the one before it, and none is a link. -/
def Plain (fs : FileSystem) : Path → List String → Prop
  | _, [] => True
  | p, s :: names =>
    (fs.find (p ++ [s])).isSome = true ∧ fs.isLink (p ++ [s]) = false ∧ Plain fs (p ++ [s]) names

/-- A path that goes down, without a link, ends under the names it was given. -/
theorem walk_plain {links links' : ℕ} {p q : Path} {steps : List PathStep}
    (hdown : ∀ step ∈ steps, step ≠ .root ∧ step ≠ .up) (hplain : Plain fs p (stepNames steps))
    (h : fs.walk links p steps = .ok (links', q)) : links' = links ∧ q = p ++ stepNames steps := by
  induction steps generalizing p with
  | nil =>
    rw [walk_nil] at h
    cases h
    exact ⟨rfl, (List.append_nil _).symm⟩
  | cons step steps ih =>
    have hrest : ∀ step ∈ steps, step ≠ .root ∧ step ≠ .up := fun step hstep =>
      hdown step (List.mem_cons_of_mem _ hstep)
    obtain ⟨hroot, hup⟩ := hdown step List.mem_cons_self
    have hdir : fs.isDir p = true := by
      by_contra hdir
      rw [walk_not_dir hroot hdir] at h
      cases h
    cases step with
    | root => exact absurd rfl hroot
    | up => exact absurd rfl hup
    | here =>
      rw [walk_here hdir] at h
      exact ih hrest hplain h
    | name s =>
      obtain ⟨hfound, hlink, hbelow⟩ := hplain
      rw [walk_name hdir hfound hlink] at h
      obtain ⟨hlinks, hq⟩ := ih hrest hbelow h
      refine ⟨hlinks, hq.trans ?_⟩
      change p ++ [s] ++ stepNames steps = p ++ s :: stepNames steps
      rw [List.append_assoc, List.singleton_append]

/-- A path whose end is no link ends at its canonical path. -/
theorem canonicalize_of_openNoFollow {path : List PathStep} {p q : Path}
    (hopen : fs.openNoFollow path = .ok p) (hcanonical : fs.canonicalize path = .ok q) : p = q := by
  obtain ⟨found, hreach, hopen⟩ := bind_eq_ok.1 hopen
  split_ifs at hopen with hlink
  cases hopen
  rw [Bool.not_eq_true] at hlink
  unfold reach at hreach
  split at hreach
  · next s hlast =>
      obtain ⟨⟨links, dir⟩, hwalk, hreach⟩ := bind_eq_ok.1 hreach
      dsimp only at hreach
      split_ifs at hreach with hdir hsome
      cases hreach
      have hsplit : path.dropLast ++ [.name s] = path :=
        List.dropLast_append_getLast? _ hlast
      have hcanonical : (fs.walk maxLinks fs.cwd path).map Prod.snd = .ok q := hcanonical
      rw [← hsplit, walk_append, hwalk] at hcanonical
      change (fs.walk links dir [.name s]).map Prod.snd = .ok q at hcanonical
      rw [walk_name hdir hsome hlink, walk_nil] at hcanonical
      cases hcanonical
      rfl
  · rw [hcanonical] at hreach
    cases hreach
    rfl

end FileSystem

end AppCore
