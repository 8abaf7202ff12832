import AppCore.Base.Word

/-!
# Disks

A disk is a finite tree of directories and regular files, given by the path of each of its
nodes. The structure carries what makes it a tree: one node per path, a root, a directory above
every node, and names a directory entry can have. The four ways a disk changes (a new leaf, new
content, a leaf removed, a subtree moved) keep it one, and each comes with the equation that
says what is found at every path afterwards:

* `get_add`, `get_write`, `get_erase`, `get_move`.

Links, permissions and limits of the device are left out.
-/

namespace AppCore

/-- An absolute path: the names from the root down. -/
abbrev Path := List String

/-- What is found at a path. -/
inductive Node where
  | dir
  | file (content : Bytes)
  deriving DecidableEq, Repr

/-- Whether a directory entry can have this name. -/
def isName (s : String) : Bool :=
  let t := s.toList
  !(t == [] || t == ['.'] || t == ['.', '.'] || t.contains '/' || t.contains (Char.ofNat 0))

/-- A finite tree of directories and files. -/
structure Disk where
  nodes : List (Path × Node)
  nodup : (nodes.map Prod.fst).Nodup
  root : ([], Node.dir) ∈ nodes
  parent : ∀ p c n, (p ++ [c], n) ∈ nodes → (p, Node.dir) ∈ nodes
  names : ∀ p n, (p, n) ∈ nodes → ∀ c ∈ p, isName c = true

namespace Disk

def get (d : Disk) (p : Path) : Option Node := d.nodes.lookup p

def empty : Disk where
  nodes := [([], .dir)]
  nodup := by simp
  root := by simp
  parent := by simp
  names := by simp

/-! ## Reading -/

variable {p : Path} {n : Node}

theorem lookup_eq_some_iff {nodes : List (Path × Node)} (h : (nodes.map Prod.fst).Nodup) :
    nodes.lookup p = some n ↔ (p, n) ∈ nodes := by
  induction nodes with
  | nil => simp
  | cons e nodes ih =>
    obtain ⟨q, m⟩ := e
    rw [List.map_cons, List.nodup_cons] at h
    rw [List.lookup_cons]
    by_cases hq : p = q
    · subst hq
      have hnot : (p, n) ∉ nodes := fun hmem => h.1 (List.mem_map.2 ⟨_, hmem, rfl⟩)
      simp [hnot, eq_comm]
    · rw [beq_eq_false_iff_ne.2 hq]
      simp [hq, ih h.2]

variable {d : Disk}

theorem get_eq_some : d.get p = some n ↔ (p, n) ∈ d.nodes :=
  lookup_eq_some_iff d.nodup

theorem get_eq_none : d.get p = none ↔ ∀ n, (p, n) ∉ d.nodes := by
  rw [Option.eq_none_iff_forall_not_mem]
  exact forall_congr' fun n => not_congr get_eq_some

@[simp] theorem get_root (d : Disk) : d.get [] = some .dir := get_eq_some.2 d.root

theorem get_of_mem_iff {d e : Disk} {p q : Path}
    (h : ∀ n, (p, n) ∈ d.nodes ↔ (q, n) ∈ e.nodes) : d.get p = e.get q := by
  apply Option.ext
  intro n
  exact (get_eq_some.trans (h n)).trans get_eq_some.symm

theorem get_of_append {c : String} {r : Path} (h : d.get (p ++ c :: r) = some n) :
    d.get p = some .dir := by
  induction r using List.reverseRecOn generalizing n with
  | nil => exact get_eq_some.2 (d.parent p c n (get_eq_some.1 h))
  | append_singleton r c' ih =>
    have hparent := d.parent (p ++ c :: r) c' n (by simpa using get_eq_some.1 h)
    exact ih (get_eq_some.2 hparent)

theorem get_append_of_none (h : d.get p = none) (r : Path) :
    d.get (p ++ r) = none := by
  cases r with
  | nil => simpa using h
  | cons c r =>
    cases hget : d.get (p ++ c :: r) with
    | none => rfl
    | some n =>
      rw [get_of_append hget] at h
      simp at h

theorem get_append_of_file {b : Bytes} (h : d.get p = some (.file b)) {r : Path} (hr : r ≠ []) :
    d.get (p ++ r) = none := by
  cases r with
  | nil => exact absurd rfl hr
  | cons c r =>
    cases hget : d.get (p ++ c :: r) with
    | none => rfl
    | some n =>
      rw [get_of_append hget] at h
      simp at h

theorem isName_of_get (h : d.get p = some n) :
    ∀ c ∈ p, isName c = true :=
  d.names p n (get_eq_some.1 h)

/-- Nodes that make a tree. -/
def IsTree (nodes : List (Path × Node)) : Prop :=
  (nodes.map Prod.fst).Nodup ∧ ([], Node.dir) ∈ nodes ∧
    (∀ e ∈ nodes, e.1 ≠ [] → (e.1.dropLast, Node.dir) ∈ nodes) ∧
    ∀ e ∈ nodes, ∀ c ∈ e.1, isName c = true

instance (nodes : List (Path × Node)) : Decidable (IsTree nodes) :=
  inferInstanceAs (Decidable (_ ∧ _ ∧ _ ∧ _))

def ofNodes (nodes : List (Path × Node)) (h : IsTree nodes) : Disk where
  nodes := nodes
  nodup := h.1
  root := h.2.1
  parent := by
    intro p c n hmem
    have hparent := h.2.2.1 _ hmem (by simp)
    rwa [List.dropLast_concat] at hparent
  names := fun _ _ hmem => h.2.2.2 _ hmem

/-! ## The four changes -/

/-- A path where a leaf can be put. -/
def Free (d : Disk) (p : Path) : Prop :=
  p ≠ [] ∧ d.get p = none ∧ d.get p.dropLast = some .dir ∧ ∀ c ∈ p, isName c = true

instance (d : Disk) (p : Path) : Decidable (d.Free p) := inferInstanceAs (Decidable (_ ∧ _ ∧ _ ∧ _))

/-- A new leaf. -/
def add (d : Disk) (p : Path) (n : Node) (h : d.Free p) : Disk where
  nodes := d.nodes ++ [(p, n)]
  nodup := by
    rw [List.map_append, List.nodup_append]
    refine ⟨d.nodup, by simp, ?_⟩
    intro a ha b hb
    obtain ⟨⟨q, m⟩, hmem, rfl⟩ := List.mem_map.1 ha
    obtain rfl : b = p := by simpa using hb
    rintro rfl
    exact get_eq_none.1 h.2.1 m hmem
  root := List.mem_append_left _ d.root
  parent := by
    intro q c m hmem
    rcases List.mem_append.1 hmem with hold | hnew
    · exact List.mem_append_left _ (d.parent q c m hold)
    · obtain ⟨rfl, rfl⟩ : q ++ [c] = p ∧ m = n := by simpa using hnew
      have hparent := get_eq_some.1 h.2.2.1
      rw [List.dropLast_concat] at hparent
      exact List.mem_append_left _ hparent
  names := by
    intro q m hmem
    rcases List.mem_append.1 hmem with hold | hnew
    · exact d.names q m hold
    · obtain ⟨rfl, rfl⟩ : q = p ∧ m = n := by simpa using hnew
      exact h.2.2.2

theorem get_add (h : d.Free p) (q : Path) :
    (d.add p n h).get q = if q = p then some n else d.get q := by
  by_cases hq : q = p
  · rw [if_pos hq, get_eq_some]
    simp [add, hq]
  · rw [if_neg hq]
    apply get_of_mem_iff
    simp [add, hq]

/-- New content for a file. -/
def write (d : Disk) (p : Path) (content : Bytes) (h : (d.get p).isSome ∧ d.get p ≠ some .dir) :
    Disk where
  nodes := d.nodes.map fun e => if e.1 = p then (p, .file content) else e
  nodup := by
    have hkeys : (d.nodes.map fun e => if e.1 = p then (p, Node.file content) else e).map Prod.fst =
        d.nodes.map Prod.fst := by
      rw [List.map_map]
      refine List.map_congr_left fun e _ => ?_
      simp only [Function.comp_apply]
      split
      · rename_i he
        exact he.symm
      · rfl
    rw [hkeys]
    exact d.nodup
  root := by
    have hne : ([] : Path) ≠ p := by
      rintro rfl
      exact h.2 d.get_root
    exact List.mem_map.2 ⟨([], .dir), d.root, by simp [hne]⟩
  parent := by
    intro q c m hmem
    have hdir : (q, Node.dir) ∈ d.nodes := by
      obtain ⟨e, he, heq⟩ := List.mem_map.1 hmem
      split at heq
      · rename_i hp
        obtain ⟨hq, -⟩ := Prod.mk.inj heq
        exact d.parent q c e.2 (by rw [← hq, ← hp]; exact he)
      · rw [heq] at he
        exact d.parent q c m he
    have hne : q ≠ p := by
      rintro rfl
      exact h.2 (get_eq_some.2 hdir)
    exact List.mem_map.2 ⟨(q, .dir), hdir, by simp [hne]⟩
  names := by
    intro q m hmem
    obtain ⟨e, he, heq⟩ := List.mem_map.1 hmem
    have hnames := d.names e.1 e.2 he
    split at heq
    · rename_i hp
      obtain ⟨rfl, -⟩ := Prod.mk.inj heq
      rwa [hp] at hnames
    · rwa [heq] at hnames

theorem get_write {content : Bytes} (h : (d.get p).isSome ∧ d.get p ≠ some .dir) (q : Path) :
    (d.write p content h).get q = if q = p then some (.file content) else d.get q := by
  by_cases hq : q = p
  · obtain ⟨n, hn⟩ := Option.isSome_iff_exists.1 h.1
    rw [if_pos hq, get_eq_some]
    exact List.mem_map.2 ⟨(p, n), get_eq_some.1 hn, by simp [hq]⟩
  · rw [if_neg hq]
    apply get_of_mem_iff
    intro n
    simp only [write, List.mem_map]
    constructor
    · rintro ⟨e, he, heq⟩
      split at heq
      · exact absurd (Prod.mk.inj heq).1.symm hq
      · rwa [heq] at he
    · intro hmem
      exact ⟨(q, n), hmem, by simp [hq]⟩

/-- A path that can be removed: not the root, and nothing below it. -/
def Leaf (d : Disk) (p : Path) : Prop :=
  p ≠ [] ∧ ∀ e ∈ d.nodes, p <+: e.1 → e.1 = p

instance (d : Disk) (p : Path) : Decidable (d.Leaf p) := inferInstanceAs (Decidable (_ ∧ _))

def erase (d : Disk) (p : Path) (h : d.Leaf p) : Disk where
  nodes := d.nodes.filter fun e => e.1 ≠ p
  nodup := d.nodup.sublist (List.filter_sublist.map _)
  root := List.mem_filter.2 ⟨d.root, by simpa using h.1.symm⟩
  parent := by
    intro q c n hmem
    have hold := (List.mem_filter.1 hmem).1
    refine List.mem_filter.2 ⟨d.parent q c n hold, ?_⟩
    rw [decide_eq_true_eq]
    rintro rfl
    have hself := h.2 _ hold (List.prefix_append _ _)
    simp at hself
  names := fun q n hmem => d.names q n (List.mem_filter.1 hmem).1

theorem get_erase (h : d.Leaf p) (q : Path) :
    (d.erase p h).get q = if q = p then none else d.get q := by
  by_cases hq : q = p
  · rw [if_pos hq, get_eq_none]
    simp [erase, hq]
  · rw [if_neg hq]
    apply get_of_mem_iff
    simp [erase, hq]

/-- A subtree that can be moved: its new place is free and not inside it. -/
def Movable (d : Disk) (src dst : Path) : Prop :=
  src ≠ [] ∧ d.get src ≠ none ∧ ¬ src <+: dst ∧ d.Free dst

instance (d : Disk) (src dst : Path) : Decidable (d.Movable src dst) :=
  inferInstanceAs (Decidable (_ ∧ _ ∧ _ ∧ _))

/-- The path of a node after the subtree at `src` has become the one at `dst`. -/
def relocate (src dst p : Path) : Path :=
  if src <+: p then dst ++ p.drop src.length else p

theorem relocate_append (src dst r : Path) : relocate src dst (src ++ r) = dst ++ r := by
  simp [relocate]

theorem relocate_of_not {src dst p : Path} (h : ¬ src <+: p) : relocate src dst p = p := by
  simp [relocate, h]

theorem Free.not_below {dst p : Path} (h : d.Free dst) (hmem : (p, n) ∈ d.nodes) : ¬ dst <+: p := by
  rintro ⟨r, rfl⟩
  have hnone := get_append_of_none h.2.1 r
  rw [get_eq_some.2 hmem] at hnone
  simp at hnone

theorem relocate_injective {src dst p q : Path} {n m : Node} (h : d.Free dst)
    (hp : (p, n) ∈ d.nodes) (hq : (q, m) ∈ d.nodes) (heq : relocate src dst p = relocate src dst q) :
    p = q := by
  by_cases hsp : src <+: p
  · obtain ⟨r, rfl⟩ := hsp
    rw [relocate_append] at heq
    by_cases hsq : src <+: q
    · obtain ⟨r', rfl⟩ := hsq
      rw [relocate_append] at heq
      rw [List.append_cancel_left heq]
    · rw [relocate_of_not hsq] at heq
      exact absurd ⟨r, heq⟩ (h.not_below hq)
  · rw [relocate_of_not hsp] at heq
    by_cases hsq : src <+: q
    · obtain ⟨r', rfl⟩ := hsq
      rw [relocate_append] at heq
      exact absurd ⟨r', heq.symm⟩ (h.not_below hp)
    · rwa [relocate_of_not hsq] at heq

theorem mem_relocate {src dst q : Path} {m : Node} :
    (q, m) ∈ d.nodes.map (fun e => (relocate src dst e.1, e.2)) ↔
      ∃ p, (p, m) ∈ d.nodes ∧ relocate src dst p = q := by
  simp only [List.mem_map, Prod.exists, Prod.mk.injEq]
  constructor
  · rintro ⟨p, n, hmem, hpath, rfl⟩
    exact ⟨p, hmem, hpath⟩
  · rintro ⟨p, hmem, hpath⟩
    exact ⟨p, m, hmem, hpath, rfl⟩

def move (d : Disk) (src dst : Path) (h : d.Movable src dst) : Disk where
  nodes := d.nodes.map fun e => (relocate src dst e.1, e.2)
  nodup := by
    rw [List.map_map]
    refine (List.nodup_map_iff_inj_on (List.Nodup.of_map _ d.nodup)).2 ?_
    rintro ⟨p, n⟩ hp ⟨q, m⟩ hq heq
    obtain rfl := relocate_injective h.2.2.2 hp hq heq
    have hget := (get_eq_some.2 hp).symm.trans (get_eq_some.2 hq)
    rw [Option.some.inj hget]
  root := by
    refine mem_relocate.2 ⟨[], d.root, relocate_of_not ?_⟩
    rw [List.prefix_nil]
    exact h.1
  parent := by
    intro q c m hmem
    obtain ⟨p, hp, hpath⟩ := mem_relocate.1 hmem
    by_cases hs : src <+: p
    · obtain ⟨r, rfl⟩ := hs
      rw [relocate_append] at hpath
      induction r using List.reverseRecOn with
      | nil =>
        -- the moved root hangs under the directory above its new place
        have hdst : dst = q ++ [c] := by simpa using hpath
        have hdir := h.2.2.2.2.2.1
        rw [hdst, List.dropLast_concat] at hdir
        refine mem_relocate.2 ⟨q, get_eq_some.1 hdir, relocate_of_not ?_⟩
        intro hsq
        exact h.2.2.1 (hdst ▸ hsq.trans (List.prefix_append _ _))
      | append_singleton r c' =>
        rw [← List.append_assoc] at hp hpath
        obtain ⟨hq, -⟩ := List.append_inj' hpath rfl
        exact mem_relocate.2 ⟨src ++ r, d.parent _ _ _ hp, by rw [relocate_append, hq]⟩
    · rw [relocate_of_not hs] at hpath
      subst hpath
      refine mem_relocate.2 ⟨q, d.parent q c m hp, relocate_of_not ?_⟩
      intro hsq
      exact hs (hsq.trans (List.prefix_append _ _))
  names := by
    intro q m hmem
    obtain ⟨p, hp, hpath⟩ := mem_relocate.1 hmem
    have hnames := d.names p m hp
    intro c hc
    by_cases hs : src <+: p
    · obtain ⟨r, rfl⟩ := hs
      rw [relocate_append] at hpath
      subst hpath
      rcases List.mem_append.1 hc with hdst | hr
      · exact h.2.2.2.2.2.2 c hdst
      · exact hnames c (List.mem_append_right _ hr)
    · rw [relocate_of_not hs] at hpath
      exact hnames c (hpath ▸ hc)

theorem get_move {src dst : Path} (h : d.Movable src dst) (q : Path) :
    (d.move src dst h).get q =
      if dst <+: q then d.get (src ++ q.drop dst.length)
      else if src <+: q then none else d.get q := by
  by_cases hdst : dst <+: q
  · obtain ⟨r, rfl⟩ := hdst
    rw [if_pos (List.prefix_append _ _), List.drop_left]
    apply get_of_mem_iff
    intro n
    rw [move, mem_relocate]
    constructor
    · rintro ⟨p, hp, hpath⟩
      by_cases hs : src <+: p
      · obtain ⟨r', rfl⟩ := hs
        rw [relocate_append] at hpath
        rwa [← List.append_cancel_left hpath]
      · rw [relocate_of_not hs] at hpath
        exact absurd ⟨r, hpath.symm⟩ (h.2.2.2.not_below hp)
    · intro hmem
      exact ⟨src ++ r, hmem, relocate_append src dst r⟩
  · rw [if_neg hdst]
    by_cases hs : src <+: q
    · rw [if_pos hs, get_eq_none]
      intro n hmem
      obtain ⟨p, hp, hpath⟩ := mem_relocate.1 hmem
      by_cases hsp : src <+: p
      · obtain ⟨r, rfl⟩ := hsp
        rw [relocate_append] at hpath
        exact hdst ⟨r, hpath⟩
      · rw [relocate_of_not hsp] at hpath
        exact hsp (hpath ▸ hs)
    · rw [if_neg hs]
      apply get_of_mem_iff
      intro n
      rw [move, mem_relocate]
      constructor
      · rintro ⟨p, hp, hpath⟩
        by_cases hsp : src <+: p
        · obtain ⟨r, rfl⟩ := hsp
          rw [relocate_append] at hpath
          exact absurd ⟨r, hpath⟩ hdst
        · rw [relocate_of_not hsp] at hpath
          rwa [← hpath]
      · intro hmem
        exact ⟨q, hmem, relocate_of_not hs⟩

end Disk

end AppCore
