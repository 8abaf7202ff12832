import AppCore.Base.Text

/-!
# Encodings that can be cut off

An encoding is delimited when what it wrote can be cut off from the front of any text in one way
only. Such encodings can be written one after another, with anything behind them: the parts are
determined by the whole.

* `Delimited` — one rule for each way a digest input is put together: fields of a fixed width,
  byte strings behind their length, optional fields, one field after another.
-/

namespace AppCore

/-- What `f` writes, for the values in `P`, is the front of a text for one value only. -/
def Delimited {α : Type} (P : α → Prop) (f : α → Bytes) : Prop :=
  ∀ ⦃a b : α⦄, P a → P b → ∀ r s : Bytes, f a ++ r = f b ++ s → a = b ∧ r = s

namespace Delimited

variable {α β : Type} {P : α → Prop} {Q : β → Prop} {f : α → Bytes} {g : β → Bytes}

theorem injective (hf : Delimited P f) {a b : α} (ha : P a) (hb : P b) (h : f a = f b) : a = b :=
  (hf ha hb [] [] (congrArg (· ++ []) h)).1

theorem comp (hg : Delimited Q g) {key : α → β} (hkey : Function.Injective key) :
    Delimited (fun a => Q (key a)) fun a => g (key a) := by
  intro a b ha hb r s h
  obtain ⟨heq, hrest⟩ := hg ha hb r s h
  exact ⟨hkey heq, hrest⟩

theorem behind (hf : Delimited P f) (tag : UInt8) : Delimited P fun a => tag :: f a :=
  fun _ _ ha hb r s h => hf ha hb r s (List.tail_eq_of_cons_eq h)

theorem append (hf : Delimited P f) (hg : Delimited Q g) :
    Delimited (fun p : α × β => P p.1 ∧ Q p.2) fun p => f p.1 ++ g p.2 := by
  rintro ⟨a, x⟩ ⟨b, y⟩ ⟨ha, hx⟩ ⟨hb, hy⟩ r s h
  rw [List.append_assoc, List.append_assoc] at h
  obtain ⟨rfl, hsecond⟩ := hf ha hb _ _ h
  obtain ⟨rfl, hrest⟩ := hg hx hy r s hsecond
  exact ⟨rfl, hrest⟩

/-- Fields that are written one after another, with no count of them. -/
theorem flatMap_injective (hf : Delimited P f) (hne : ∀ a, f a ≠ []) {as bs : List α}
    (has : ∀ a ∈ as, P a) (hbs : ∀ b ∈ bs, P b) (h : as.flatMap f = bs.flatMap f) : as = bs := by
  induction as generalizing bs with
  | nil =>
    cases bs with
    | nil => rfl
    | cons b bs =>
      rw [List.flatMap_nil, List.flatMap_cons] at h
      exact absurd (List.append_eq_nil_iff.1 h.symm).1 (hne b)
  | cons a as ih =>
    cases bs with
    | nil =>
      rw [List.flatMap_nil, List.flatMap_cons] at h
      exact absurd (List.append_eq_nil_iff.1 h).1 (hne a)
    | cons b bs =>
      rw [List.flatMap_cons, List.flatMap_cons] at h
      obtain ⟨rfl, hrest⟩ := hf (has a List.mem_cons_self) (hbs b List.mem_cons_self) _ _ h
      rw [ih (fun x hx => has x (List.mem_cons_of_mem _ hx))
        (fun x hx => hbs x (List.mem_cons_of_mem _ hx)) hrest]

end Delimited

/-! ## Fields -/

theorem delimited_beBytes (n : Nat) : Delimited (· < 256 ^ n) (beBytes n) := by
  intro a b ha hb r s h
  obtain ⟨hfield, hrest⟩ := List.append_inj h (by rw [length_beBytes, length_beBytes])
  refine ⟨?_, hrest⟩
  rw [← fromBe_beBytes ha, hfield, fromBe_beBytes hb]

theorem delimited_toBeBytes64 : Delimited (fun _ => True) toBeBytes64 := by
  intro a b _ _ r s h
  obtain ⟨heq, hrest⟩ := delimited_beBytes 8 a.toNat_lt b.toNat_lt r s h
  exact ⟨UInt64.toNat_inj.1 heq, hrest⟩

theorem delimited_lengthed (n : Nat) :
    Delimited (fun bytes : Bytes => bytes.length < 256 ^ n)
      fun bytes => beBytes n bytes.length ++ bytes := by
  intro a b ha hb r s h
  rw [List.append_assoc, List.append_assoc] at h
  obtain ⟨hlength, hrest⟩ := delimited_beBytes n ha hb _ _ h
  exact List.append_inj hrest hlength

/-- A byte string in front of a byte that is not in it. -/
theorem delimited_terminated (stop : UInt8) :
    Delimited (fun bytes : Bytes => stop ∉ bytes) fun bytes => bytes ++ [stop] := by
  intro a b ha hb r s h
  induction a generalizing b with
  | nil =>
    cases b with
    | nil => exact ⟨rfl, List.tail_eq_of_cons_eq h⟩
    | cons y b => exact absurd (List.head_eq_of_cons_eq h) fun heq => hb (heq ▸ List.mem_cons_self)
  | cons x a ih =>
    cases b with
    | nil =>
      exact absurd (List.head_eq_of_cons_eq h) fun heq => ha (heq ▸ List.mem_cons_self)
    | cons y b =>
      obtain ⟨heq, hrest⟩ := ih (fun hmem => ha (List.mem_cons_of_mem _ hmem))
        (fun hmem => hb (List.mem_cons_of_mem _ hmem)) (List.tail_eq_of_cons_eq h)
      rw [List.head_eq_of_cons_eq h, heq]
      exact ⟨rfl, hrest⟩

theorem strBytes_injective : Function.Injective strBytes := by
  intro s t h
  have hchars : some s.toList = some t.toList := by
    rw [← fromUtf8_utf8 s.toList, ← fromUtf8_utf8 t.toList]
    exact congrArg fromUtf8 h
  exact String.toList_injective (Option.some.inj hchars)

theorem lowerHex_injective : Function.Injective lowerHex := by
  intro a b h
  have hpairs := fromHexPairs_utf8_lowerHex a
  rw [h, fromHexPairs_utf8_lowerHex] at hpairs
  exact (Option.some.inj hpairs).symm

theorem decimal_injective {m n : Nat} (h : decimal m = decimal n) : m = n :=
  calc m = Nat.ofDigitChars 10 (decimal m) 0 := Nat.ofDigitChars_ten_toDigits.symm
    _ = Nat.ofDigitChars 10 (decimal n) 0 := by rw [h]
    _ = n := Nat.ofDigitChars_ten_toDigits

/-- A value behind a byte that says whether there is one. -/
def optionalBytes {α : Type} (f : α → Bytes) : Option α → Bytes
  | some a => 1 :: f a
  | none => [0]

theorem delimited_optionalBytes {α : Type} {P : α → Prop} {f : α → Bytes} (hf : Delimited P f) :
    Delimited (fun value : Option α => ∀ a ∈ value, P a) (optionalBytes f) := by
  intro a b ha hb r s h
  cases a with
  | none =>
    cases b with
    | none => exact ⟨rfl, List.tail_eq_of_cons_eq h⟩
    | some b => exact absurd (List.head_eq_of_cons_eq h) (by decide)
  | some a =>
    cases b with
    | none => exact absurd (List.head_eq_of_cons_eq h) (by decide)
    | some b =>
      obtain ⟨rfl, hrest⟩ := hf (ha a rfl) (hb b rfl) r s (List.tail_eq_of_cons_eq h)
      exact ⟨rfl, hrest⟩

end AppCore
