import Mathlib.Tactic.Common

/-!
# Programs that make calls

A program is a tree: it is done, or it makes a call and goes on with the answer (`Dialogue`). What a
call does and how it is answered is up to an environment, which picks one of several fates for it.
A program can be stopped before any of its calls.

* `Dialogue.Safe` — whatever the fates, every call finds the state ready for it, and a value is
  returned in a state that satisfies the postcondition.
-/

namespace AppCore

/-- A program whose calls `c : C` are answered by an `R c`. -/
inductive Dialogue (C : Type) (R : C → Type) (α : Type) where
  | done (a : α)
  | call (c : C) (next : R c → Dialogue C R α)

namespace Dialogue

variable {C σ F α β : Type} {R : C → Type}

def bind : Dialogue C R α → (α → Dialogue C R β) → Dialogue C R β
  | done a, f => f a
  | call c next, f => call c fun r => (next r).bind f

instance : Monad (Dialogue C R) where
  pure := done
  bind := Dialogue.bind

def ask (c : C) : Dialogue C R (R c) := call c done

@[simp] theorem pure_eq (a : α) : (pure a : Dialogue C R α) = done a := rfl

@[simp] theorem done_bind (a : α) (f : α → Dialogue C R β) : (done a >>= f) = f a := rfl

@[simp] theorem call_bind (c : C) (next : R c → Dialogue C R α) (f : α → Dialogue C R β) :
    (call c next >>= f) = call c fun r => next r >>= f := rfl

/-! ## Safety -/

section Safety

variable {exec : σ → (c : C) → F → σ × R c} {Ready : σ → C → Prop} {Allowed : σ → C → F → Prop}
  {post : α → σ → Prop} {s : σ}

/-- Every call is made in a state that is ready for it, and so on for each fate that is allowed
there; a value comes with the postcondition. -/
def Safe (exec : σ → (c : C) → F → σ × R c) (Ready : σ → C → Prop)
    (Allowed : σ → C → F → Prop) (post : α → σ → Prop) : Dialogue C R α → σ → Prop
  | done a, s => post a s
  | call c next, s => Ready s c ∧ ∀ f, Allowed s c f →
      Safe exec Ready Allowed post (next (exec s c f).2) (exec s c f).1

theorem safe_ask {c : C} {post : R c → σ → Prop} (hready : Ready s c)
    (h : ∀ f, Allowed s c f → post (exec s c f).2 (exec s c f).1) :
    Safe exec Ready Allowed post (ask c) s :=
  ⟨hready, h⟩

theorem Safe.mono {post' : α → σ → Prop} {m : Dialogue C R α}
    (h : Safe exec Ready Allowed post m s) (himp : ∀ a t, post a t → post' a t) :
    Safe exec Ready Allowed post' m s := by
  induction m generalizing s with
  | done a => exact himp a s h
  | call c next ih => exact ⟨h.1, fun f hf => ih _ (h.2 f hf)⟩

theorem Safe.ready_mono {Ready' : σ → C → Prop} {m : Dialogue C R α}
    (h : Safe exec Ready Allowed post m s) (himp : ∀ t c, Ready t c → Ready' t c) :
    Safe exec Ready' Allowed post m s := by
  induction m generalizing s with
  | done a => exact h
  | call c next ih => exact ⟨himp s c h.1, fun f hf => ih _ (h.2 f hf)⟩

theorem safe_bind {post : β → σ → Prop} {m : Dialogue C R α} {f : α → Dialogue C R β}
    (h : Safe exec Ready Allowed (fun a t => Safe exec Ready Allowed post (f a) t) m s) :
    Safe exec Ready Allowed post (m >>= f) s := by
  induction m generalizing s with
  | done a => exact h
  | call c next ih => exact ⟨h.1, fun fate hf => ih _ (h.2 fate hf)⟩

end Safety

/-- Where the program leads when every call meets the fate `f`. -/
def through (exec : σ → (c : C) → F → σ × R c) (f : F) : Dialogue C R α → σ → σ × α
  | done a, s => (s, a)
  | call c next, s => (next (exec s c f).2).through exec f (exec s c f).1

theorem through_bind (exec : σ → (c : C) → F → σ × R c) (f : F) (m : Dialogue C R α)
    (g : α → Dialogue C R β) (s : σ) :
    (m >>= g).through exec f s =
      (g (m.through exec f s).2).through exec f (m.through exec f s).1 := by
  induction m generalizing s with
  | done a => rfl
  | call c next ih => exact ih _ _

end Dialogue

end AppCore
