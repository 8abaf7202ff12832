import AppCore.Base.Word

/-!
# Reading at a cursor

A binary format is read by readers that take the input and a position in it and return a value
and the position behind it. A writer turns a value into bytes. `Reads reader put valid` says that
the two belong together, in both directions: where the bytes of a valid value stand, the reader
finds the value and steps over them (`accepts`), and what the reader finds is a valid value whose
bytes stand there (`canonical`).
-/

namespace AppCore

/-- `input.get(start..stop)`. -/
def slice (input : Bytes) (start stop : Nat) : Option Bytes :=
  if start ≤ stop ∧ stop ≤ input.length then some ((input.drop start).take (stop - start))
  else none

/-- The rest of the input from the cursor on. -/
structure At (input : Bytes) (cursor : Nat) (rest : Bytes) : Prop where
  le : cursor ≤ input.length
  drop : input.drop cursor = rest

theorem At.append (first rest : Bytes) : At (first ++ rest) first.length rest :=
  ⟨by simp, by simp⟩

theorem at_zero (input : Bytes) : At input 0 input := ⟨Nat.zero_le _, rfl⟩

theorem At.advance {input bytes rest : Bytes} {cursor : Nat} (h : At input cursor (bytes ++ rest)) :
    At input (cursor + bytes.length) rest := by
  have hlen := congrArg List.length h.drop
  rw [List.length_drop, List.length_append] at hlen
  have hle := h.le
  refine ⟨by omega, ?_⟩
  rw [← List.drop_drop, h.drop, List.drop_left]

theorem At.length_eq {input rest : Bytes} {cursor : Nat} (h : At input cursor rest) :
    input.length = cursor + rest.length := by
  have hlen := congrArg List.length h.drop
  rw [List.length_drop] at hlen
  have hle := h.le
  omega

theorem slice_at {input bytes rest : Bytes} {cursor : Nat}
    (h : At input cursor (bytes ++ rest)) :
    slice input cursor (cursor + bytes.length) = some bytes := by
  have hlen := h.advance.le
  rw [slice, if_pos ⟨by omega, hlen⟩, h.drop, Nat.add_sub_cancel_left, List.take_left]

theorem slice_eq_some {input bytes : Bytes} {start stop : Nat}
    (h : slice input start stop = some bytes) :
    start + bytes.length = stop ∧ ∃ rest, At input start (bytes ++ rest) := by
  unfold slice at h
  split at h
  · rename_i hrange
    obtain rfl := Option.some.inj h
    have hlen : ((input.drop start).take (stop - start)).length = stop - start := by
      rw [List.length_take, List.length_drop]
      omega
    refine ⟨by omega, (input.drop start).drop (stop - start), by omega, ?_⟩
    rw [List.take_append_drop]
  · simp at h

/-! ## Readers -/

/-- A value and the position behind it, or an error. -/
abbrev Reader (ε α : Type) := Bytes → Nat → Except ε (α × Nat)

/-- A reader and a writer that belong together. -/
structure Reads {ε α : Type} (reader : Reader ε α) (put : α → Bytes) (valid : α → Prop) :
    Prop where
  accepts {input : Bytes} {cursor : Nat} {x : α} {rest : Bytes} (hx : valid x)
    (h : At input cursor (put x ++ rest)) :
    reader input cursor = .ok (x, cursor + (put x).length)
  canonical {input : Bytes} {cursor next : Nat} {x : α}
    (h : reader input cursor = .ok (x, next)) :
    valid x ∧ next = cursor + (put x).length ∧ ∃ rest, At input cursor (put x ++ rest)

theorem Reads.next {ε α : Type} {reader : Reader ε α} {put : α → Bytes} {valid : α → Prop}
    (hr : Reads reader put valid) {input rest : Bytes} {cursor : Nat} {x : α} (hx : valid x)
    (h : At input cursor (put x ++ rest)) :
    ∃ cursor', reader input cursor = .ok (x, cursor') ∧ At input cursor' rest :=
  ⟨_, hr.accepts hx h, h.advance⟩

theorem Reads.step {ε α : Type} {reader : Reader ε α} {put : α → Bytes} {valid : α → Prop}
    (hr : Reads reader put valid) {input rest : Bytes} {cursor next : Nat} {x : α}
    (hat : At input cursor rest) (h : reader input cursor = .ok (x, next)) :
    valid x ∧ ∃ rest', rest = put x ++ rest' ∧ At input next rest' := by
  obtain ⟨hx, rfl, rest', hat'⟩ := hr.canonical h
  refine ⟨hx, rest', ?_, hat'.advance⟩
  rw [← hat.drop, ← hat'.drop]

theorem bind_eq_ok {ε α β : Type} {x : Except ε α} {f : α → Except ε β} {b : β} :
    (x >>= f) = .ok b ↔ ∃ a, x = .ok a ∧ f a = .ok b := by
  cases x with
  | error e => simp [bind, Except.bind]
  | ok a => simp [bind, Except.bind]

theorem ok_bind {ε α β : Type} (a : α) (f : α → Except ε β) :
    (Except.ok a >>= f) = f a := rfl

theorem forM_eq_ok {ε α : Type} {f : α → Except ε Unit} {members : List α} :
    members.forM f = .ok () ↔ ∀ a ∈ members, f a = .ok () := by
  induction members with
  | nil => exact ⟨fun _ => nofun, fun _ => rfl⟩
  | cons a members ih =>
    rw [List.forall_mem_cons, ← ih]
    change (f a >>= fun _ => members.forM f) = _ ↔ _
    cases hfirst : f a with
    | error e => exact ⟨nofun, fun h => nomatch h.1⟩
    | ok u => exact ⟨fun h => ⟨rfl, h⟩, fun h => h.2⟩

end AppCore
