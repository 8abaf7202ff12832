import AppCore.Base.DiskCalls
import AppCore.Base.Prog

/-!
# Frames

What a program leaves alone. Every path outside a region is found as it was, except that a
directory may be there now where nothing was, if it is one of the directories the program makes.

* `Confined` — the relation between two disks, with one lemma for each system call.
-/

namespace AppCore

def below (p : Path) : Set Path := {q | p <+: q}

/-- The paths on the way to a path, with the path itself. -/
def above (p : Path) : Set Path := {q | q <+: p}

/-- Neither path is inside the other. -/
def Apart (p q : Path) : Prop := ¬ p <+: q ∧ ¬ q <+: p

instance (p q : Path) : Decidable (Apart p q) := inferInstanceAs (Decidable (_ ∧ _))

theorem Apart.symm {p q : Path} (h : Apart p q) : Apart q p := ⟨h.2, h.1⟩

theorem self_mem_below (p : Path) : p ∈ below p := List.prefix_refl p

theorem append_mem_below (p r : Path) : p ++ r ∈ below p := List.prefix_append p r

theorem below_append (p r : Path) : below (p ++ r) ⊆ below p :=
  fun _ hq => (List.prefix_append p r).trans hq

theorem above_append (p r : Path) : above (p ++ r) ⊆ below p ∪ above p :=
  fun _ hq => (List.prefix_or_prefix_of_prefix hq (List.prefix_append p r)).symm

theorem Apart.not_mem_below {p q r : Path} (h : Apart p q) (hr : r ∈ below p) : r ∉ below q := by
  intro hq
  rcases List.prefix_or_prefix_of_prefix hr hq with hpq | hqp
  · exact h.1 hpq
  · exact h.2 hqp

theorem Apart.append {p q : Path} (h : Apart p q) (r : Path) : Apart (p ++ r) q := by
  constructor
  · intro hpq
    exact h.1 ((List.prefix_append p r).trans hpq)
  · intro hqp
    exact h.not_mem_below (append_mem_below p r) hqp

theorem apart_concat {p : Path} {a b : String} (h : a ≠ b) : Apart (p ++ [a]) (p ++ [b]) := by
  constructor
  · simpa using h
  · simpa using h.symm

namespace Disk

/-- Outside the region, only missing directories were made. -/
def Confined (region made : Set Path) (d t : Disk) : Prop :=
  ∀ q ∉ region, t.get q = d.get q ∨ q ∈ made ∧ d.get q = none ∧ t.get q = some .dir

section Confined

variable {region region' made made' : Set Path} {d t u : Disk}

theorem Confined.refl (region made : Set Path) (d : Disk) : Confined region made d d :=
  fun _ _ => .inl rfl

theorem Confined.trans (h : Confined region made d t) (h' : Confined region made t u) :
    Confined region made d u := by
  intro q hq
  rcases h q hq with heq | ⟨hmade, hnone, hdir⟩
  · rw [← heq]
    exact h' q hq
  · rcases h' q hq with heq' | ⟨-, hnone', -⟩
    · exact .inr ⟨hmade, hnone, heq'.trans hdir⟩
    · rw [hdir] at hnone'
      simp at hnone'

theorem Confined.mono (h : Confined region made d t) (hregion : region ⊆ region')
    (hmade : made ⊆ region' ∪ made') : Confined region' made' d t :=
  fun q hq => (h q fun hin => hq (hregion hin)).imp_right fun hnew =>
    ⟨(hmade hnew.1).resolve_left hq, hnew.2⟩

variable {q : Path}

theorem Confined.get_of_some (h : Confined region made d t) {n : Node} (hq : q ∉ region)
    (hn : d.get q = some n) : t.get q = some n := by
  rcases h q hq with heq | ⟨-, hnone, -⟩
  · exact heq.trans hn
  · rw [hnone] at hn
    simp at hn

theorem Confined.get_eq (h : Confined region made d t) (hq : q ∉ region) (hmade : q ∉ made) :
    t.get q = d.get q :=
  (h q hq).resolve_right fun hnew => hmade hnew.1

theorem Confined.file_of_get (h : Confined region made d t) {b : Bytes} (hq : q ∉ region)
    (hb : t.get q = some (.file b)) : d.get q = some (.file b) := by
  rcases h q hq with heq | ⟨-, -, hdir⟩
  · exact heq.symm.trans hb
  · rw [hdir] at hb
    simp at hb

end Confined

theorem confined_of_get {region made : Set Path} {d t : Disk}
    (h : ∀ q ∉ region, t.get q = d.get q) : Confined region made d t :=
  fun q hq => .inl (h q hq)

variable {p : Path}

theorem confined_createNew {d t : Disk} (h : d.createNew p = .ok t) :
    Confined (below p) ∅ d t := by
  refine confined_of_get fun q hq => ?_
  rw [(get_createNew h).2, if_neg]
  rintro rfl
  exact hq (self_mem_below q)

theorem confined_createDir {d t : Disk} (h : d.createDir p = .ok t) :
    Confined ∅ {p} d t := by
  intro q _
  obtain ⟨hnone, hget⟩ := get_createDir h
  rw [hget]
  by_cases hq : q = p
  · rw [if_pos hq, hq]
    exact .inr ⟨rfl, hnone, rfl⟩
  · rw [if_neg hq]
    exact .inl rfl

theorem confined_openCreate {d t : Disk} (h : d.openCreate p = .ok t) :
    Confined (below p) ∅ d t := by
  refine confined_of_get fun q hq => (get_openCreate h).2.1 q ?_
  rintro rfl
  exact hq (self_mem_below q)

theorem confined_writeAll {d t : Disk} {content : Bytes} (h : d.writeAll p content = .ok t) :
    Confined (below p) ∅ d t := by
  refine confined_of_get fun q hq => ?_
  rw [get_writeAll h, if_neg]
  rintro rfl
  exact hq (self_mem_below q)

theorem confined_remove {d t : Disk} (h : d.remove p = .ok t) :
    Confined (below p) ∅ d t := by
  refine confined_of_get fun q hq => ?_
  rw [get_remove h, if_neg]
  rintro rfl
  exact hq (self_mem_below q)

theorem confined_rename {d t : Disk} {src dst : Path} (h : d.rename src dst = .ok t)
    (hne : src ≠ dst) : Confined (below src ∪ below dst) ∅ d t := by
  refine confined_of_get fun q hq => ?_
  rw [Set.mem_union, not_or] at hq
  have hsrc : ¬ src <+: q := hq.1
  have hdst : ¬ dst <+: q := hq.2
  rw [(get_rename h hne).2, if_neg hdst, if_neg hsrc]

end Disk

namespace Prog

/-- All steps of a program are confined to a region and to the directories it makes. -/
def Within {ε α : Type} (region made : Set Path) (m : Prog Disk ε α) : Prop :=
  ∀ d, Keeps (Disk.Confined region made d) m

section Within

variable {ε α β : Type} {region region' made made' : Set Path}

variable {m : Prog Disk ε α}

theorem Within.mono (h : Within region made m) (hregion : region ⊆ region')
    (hmade : made ⊆ region' ∪ made') : Within region' made' m := by
  intro d s hs
  refine wp_mono (h s s (.refl _ _ s)) ?_ ?_
  · intro t ht
    exact hs.trans (ht.mono hregion hmade)
  · intro _ t ht
    exact hs.trans (ht.mono hregion hmade)

theorem Within.wp (h : Within region made m) (d : Disk) :
    m.wp (Disk.Confined region made d) (fun _ t => Disk.Confined region made d t) d :=
  h d d (.refl _ _ d)

theorem within_pure (a : α) : Within region made (pure a : Prog Disk ε α) :=
  fun _ => keeps_pure a

theorem within_fail (e : ε) : Within region made (fail e : Prog Disk ε α) :=
  fun _ => keeps_fail e

theorem within_read (f : Disk → Except ε α) : Within region made (read f) :=
  fun _ => keeps_read f

theorem within_step {f : Disk → Except ε Disk}
    (h : ∀ d t, f d = .ok t → Disk.Confined region made d t) : Within region made (step f) :=
  fun _ => keeps_step fun s t hs hst => hs.trans (h s t hst)

theorem Within.bind {f : α → Prog Disk ε β} (hm : Within region made m)
    (hf : ∀ a, Within region made (f a)) : Within region made (m >>= f) :=
  fun d => keeps_bind (hm d) fun a => hf a d

theorem within_read_bind {f : Disk → Except ε α} {g : α → Prog Disk ε β}
    (h : ∀ d a, f d = .ok a → Within region made (g a)) : Within region made (read f >>= g) :=
  fun d => keeps_read_bind fun s a hsa => h s a hsa d

theorem Within.attempt (hm : Within region made m) :
    Within region made m.attempt :=
  fun d => keeps_attempt (hm d)

theorem within_each {f : α → Prog Disk ε Unit} (as : List α)
    (h : ∀ a ∈ as, Within region made (f a)) : Within region made (each f as) :=
  fun d => keeps_each as fun a ha => h a ha d

theorem within_collect {f : α → Prog Disk ε β} (as : List α)
    (h : ∀ a ∈ as, Within region made (f a)) : Within region made (collect f as) :=
  fun d => keeps_collect as fun a ha => h a ha d

end Within

end Prog

end AppCore
