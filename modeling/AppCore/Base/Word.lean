import Mathlib

/-!
# Machine words

The fixed-width arithmetic the runtime relies on: `u64` additions that report or clamp an
overflow, and the big-endian byte strings that are fed to digests. Everything is stated over
`UInt64` and read back through `toNat`, so that later proofs are linear arithmetic.
-/

namespace AppCore

abbrev Bytes := List UInt8

/-! ## Additions that do not wrap -/

def checkedAdd (a b : UInt64) : Option UInt64 :=
  if a.toNat + b.toNat < 2 ^ 64 then some (a + b) else none

def saturatingAdd (a b : UInt64) : UInt64 :=
  if a.toNat + b.toNat < 2 ^ 64 then a + b else UInt64.ofNat (2 ^ 64 - 1)

def saturatingSub (a b : UInt64) : UInt64 := if b ≤ a then a - b else 0

theorem toNat_add_of_lt {a b : UInt64} (h : a.toNat + b.toNat < 2 ^ 64) :
    (a + b).toNat = a.toNat + b.toNat := by
  rw [UInt64.toNat_add, Nat.mod_eq_of_lt h]

theorem checkedAdd_eq_some {a b c : UInt64} :
    checkedAdd a b = some c ↔ a.toNat + b.toNat < 2 ^ 64 ∧ c.toNat = a.toNat + b.toNat := by
  unfold checkedAdd
  split
  · rename_i h
    rw [Option.some.injEq, ← UInt64.toNat_inj, toNat_add_of_lt h]
    exact ⟨fun hc => ⟨h, hc.symm⟩, fun hc => hc.2.symm⟩
  · rename_i h
    exact ⟨fun hc => absurd hc (by simp), fun hc => absurd hc.1 h⟩

theorem checkedAdd_eq_none {a b : UInt64} :
    checkedAdd a b = none ↔ 2 ^ 64 ≤ a.toNat + b.toNat := by
  unfold checkedAdd
  split <;> simp <;> omega

theorem toNat_saturatingAdd (a b : UInt64) :
    (saturatingAdd a b).toNat = min (a.toNat + b.toNat) (2 ^ 64 - 1) := by
  unfold saturatingAdd
  split
  · rename_i h
    rw [toNat_add_of_lt h]
    omega
  · rename_i h
    rw [UInt64.toNat_ofNat_of_lt' (by decide)]
    omega

/-! ## Big-endian bytes -/

/-- The low `n` bytes of a number, most significant first. -/
def beBytes (n value : Nat) : Bytes :=
  (List.range n).reverse.map fun i => UInt8.ofNat (value / 256 ^ i)

/-- `u64::to_be_bytes`. -/
def toBeBytes64 (x : UInt64) : Bytes := beBytes 8 x.toNat

/-- `(n as u64).to_be_bytes()` for a `usize`. -/
def lenBytes64 (n : Nat) : Bytes := beBytes 8 n

/-- `(n as u32).to_be_bytes()` for a `usize`: the cast drops the high bits. -/
def lenBytes32 (n : Nat) : Bytes := beBytes 4 n

/-- `u16::to_be_bytes`. -/
def toBeBytes16 (x : UInt16) : Bytes := beBytes 2 x.toNat

/-- `u32::to_be_bytes`. -/
def toBeBytes32 (x : UInt32) : Bytes := beBytes 4 x.toNat

@[simp] theorem length_beBytes (n value : Nat) : (beBytes n value).length = n := by
  simp [beBytes]

/-- The number with the given big-endian bytes. -/
def fromBe (bytes : Bytes) : Nat := bytes.foldl (fun value b => value * 256 + b.toNat) 0

theorem beBytes_succ (n value : Nat) :
    beBytes (n + 1) value = UInt8.ofNat (value / 256 ^ n) :: beBytes n value := by
  simp [beBytes, List.range_succ]

theorem foldl_fromBe (bytes : Bytes) (value : Nat) :
    bytes.foldl (fun value b => value * 256 + b.toNat) value =
      value * 256 ^ bytes.length + fromBe bytes := by
  induction bytes generalizing value with
  | nil => simp [fromBe]
  | cons b bytes ih =>
    have hzero := ih b.toNat
    rw [fromBe, List.foldl_cons, List.foldl_cons, ih, List.length_cons, pow_succ,
      Nat.zero_mul, Nat.zero_add, hzero]
    ring

theorem fromBe_cons (b : UInt8) (bytes : Bytes) :
    fromBe (b :: bytes) = b.toNat * 256 ^ bytes.length + fromBe bytes := by
  rw [fromBe, List.foldl_cons, Nat.zero_mul, Nat.zero_add, foldl_fromBe]

theorem fromBe_lt (bytes : Bytes) : fromBe bytes < 256 ^ bytes.length := by
  induction bytes with
  | nil => simp [fromBe]
  | cons b bytes ih =>
    have hb : b.toNat < 256 := b.toNat_lt
    rw [fromBe_cons, List.length_cons, pow_succ]
    nlinarith

theorem fromBe_beBytes_mod (n value : Nat) : fromBe (beBytes n value) = value % 256 ^ n := by
  induction n with
  | zero => simp [beBytes, fromBe, Nat.mod_one]
  | succ n ih =>
    have hdigit : (UInt8.ofNat (value / 256 ^ n)).toNat = value / 256 ^ n % 256 :=
      UInt8.toNat_ofNat'
    rw [beBytes_succ, fromBe_cons, length_beBytes, ih, hdigit, pow_succ, Nat.mod_mul]
    ring

theorem fromBe_beBytes {n value : Nat} (h : value < 256 ^ n) :
    fromBe (beBytes n value) = value := by
  rw [fromBe_beBytes_mod, Nat.mod_eq_of_lt h]

theorem beBytes_mod (n value : Nat) : beBytes n (value % 256 ^ n) = beBytes n value := by
  induction n generalizing value with
  | zero => rfl
  | succ n ih =>
    have htail : beBytes n (value % 256 ^ (n + 1)) = beBytes n value := by
      rw [← ih, Nat.mod_mod_of_dvd _ (pow_dvd_pow 256 n.le_succ), ih]
    have hhead : UInt8.ofNat (value % 256 ^ (n + 1) / 256 ^ n) =
        UInt8.ofNat (value / 256 ^ n) := by
      rw [pow_succ, Nat.mod_mul_right_div_self]
      apply UInt8.toNat_inj.1
      rw [UInt8.toNat_ofNat', UInt8.toNat_ofNat', Nat.mod_mod]
    rw [beBytes_succ, beBytes_succ, htail, hhead]

theorem beBytes_fromBe (bytes : Bytes) : beBytes bytes.length (fromBe bytes) = bytes := by
  induction bytes with
  | nil => rfl
  | cons b bytes ih =>
    have hlt := fromBe_lt bytes
    have hhead : (b.toNat * 256 ^ bytes.length + fromBe bytes) / 256 ^ bytes.length = b.toNat := by
      rw [Nat.mul_comm, Nat.mul_add_div (by positivity), Nat.div_eq_of_lt hlt, Nat.add_zero]
    have htail : beBytes bytes.length (b.toNat * 256 ^ bytes.length + fromBe bytes) = bytes := by
      rw [← beBytes_mod, Nat.mul_comm, Nat.mul_add_mod, Nat.mod_eq_of_lt hlt, ih]
    rw [List.length_cons, beBytes_succ, fromBe_cons, hhead, htail, UInt8.ofNat_toNat]

example : toBeBytes64 0x0102030405060708 = [1, 2, 3, 4, 5, 6, 7, 8] := by decide

end AppCore
