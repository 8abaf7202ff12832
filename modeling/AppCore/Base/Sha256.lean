import AppCore.Base.Word

/-!
# SHA-256

The digest comes from a third-party crate, so the development takes it as a class: everything
is proved for an arbitrary function from byte strings to 32 bytes. `Sha256.fips` is the
standard's function, for evaluating concrete inputs.
-/

namespace AppCore

abbrev Digest := Vector UInt8 32

/-- The digest function the program links against. -/
class Sha256 where
  digest : Bytes → Digest

export Sha256 (digest)

/-! ## The standard's function -/

namespace Sha256

def roundConstants : List UInt32 :=
  [0x428a2f98, 0x71374491, 0xb5c0fbcf, 0xe9b5dba5, 0x3956c25b, 0x59f111f1, 0x923f82a4, 0xab1c5ed5,
   0xd807aa98, 0x12835b01, 0x243185be, 0x550c7dc3, 0x72be5d74, 0x80deb1fe, 0x9bdc06a7, 0xc19bf174,
   0xe49b69c1, 0xefbe4786, 0x0fc19dc6, 0x240ca1cc, 0x2de92c6f, 0x4a7484aa, 0x5cb0a9dc, 0x76f988da,
   0x983e5152, 0xa831c66d, 0xb00327c8, 0xbf597fc7, 0xc6e00bf3, 0xd5a79147, 0x06ca6351, 0x14292967,
   0x27b70a85, 0x2e1b2138, 0x4d2c6dfc, 0x53380d13, 0x650a7354, 0x766a0abb, 0x81c2c92e, 0x92722c85,
   0xa2bfe8a1, 0xa81a664b, 0xc24b8b70, 0xc76c51a3, 0xd192e819, 0xd6990624, 0xf40e3585, 0x106aa070,
   0x19a4c116, 0x1e376c08, 0x2748774c, 0x34b0bcb5, 0x391c0cb3, 0x4ed8aa4a, 0x5b9cca4f, 0x682e6ff3,
   0x748f82ee, 0x78a5636f, 0x84c87814, 0x8cc70208, 0x90befffa, 0xa4506ceb, 0xbef9a3f7, 0xc67178f2]

/-- Rotate right. -/
def rotr (x : UInt32) (n : UInt32) : UInt32 := (x >>> n) ||| (x <<< (32 - n))

/-- The eight working variables. -/
structure Words where
  (a b c d e f g h : UInt32)

def Words.initial : Words :=
  ⟨0x6a09e667, 0xbb67ae85, 0x3c6ef372, 0xa54ff53a, 0x510e527f, 0x9b05688c, 0x1f83d9ab, 0x5be0cd19⟩

def Words.add (x y : Words) : Words :=
  ⟨x.a + y.a, x.b + y.b, x.c + y.c, x.d + y.d, x.e + y.e, x.f + y.f, x.g + y.g, x.h + y.h⟩

/-- One compression round with constant `k` and schedule word `w`. -/
def Words.round (v : Words) (k w : UInt32) : Words :=
  let s1 := rotr v.e 6 ^^^ rotr v.e 11 ^^^ rotr v.e 25
  let ch := (v.e &&& v.f) ^^^ (~~~v.e &&& v.g)
  let t1 := v.h + s1 + ch + k + w
  let s0 := rotr v.a 2 ^^^ rotr v.a 13 ^^^ rotr v.a 22
  let maj := (v.a &&& v.b) ^^^ (v.a &&& v.c) ^^^ (v.b &&& v.c)
  ⟨t1 + (s0 + maj), v.a, v.b, v.c, v.d + t1, v.e, v.f, v.g⟩

/-- Extend the schedule by `n` words; the list holds the latest word first. -/
def extend : Nat → List UInt32 → List UInt32
  | 0, ws => ws
  | n + 1, ws =>
    let w2 := ws.getD 1 0
    let w7 := ws.getD 6 0
    let w15 := ws.getD 14 0
    let w16 := ws.getD 15 0
    let s0 := rotr w15 7 ^^^ rotr w15 18 ^^^ (w15 >>> 3)
    let s1 := rotr w2 17 ^^^ rotr w2 19 ^^^ (w2 >>> 10)
    extend n ((w16 + s0 + w7 + s1) :: ws)

/-- Four bytes as a big-endian word. -/
def wordOf (bs : Bytes) : UInt32 := bs.foldl (fun acc b => acc <<< 8 ||| b.toUInt32) 0

/-- Cut a list into pieces of `k`, at most `fuel` of them. -/
def pieces {α : Type*} (k : Nat) : Nat → List α → List (List α)
  | 0, _ => []
  | fuel + 1, xs => if xs.isEmpty then [] else xs.take k :: pieces k fuel (xs.drop k)

/-- Absorb one 64-byte block. -/
def compress (v : Words) (block : Bytes) : Words :=
  let first := ((pieces 4 16 block).map wordOf).reverse
  let schedule := (extend 48 first).reverse
  v.add ((roundConstants.zip schedule).foldl (fun s kw => s.round kw.1 kw.2) v)

/-- The message with the `1` bit, the zero bits and the 64-bit length appended. -/
def pad (message : Bytes) : Bytes :=
  let zeros := (119 - message.length % 64) % 64
  message ++ 0x80 :: List.replicate zeros 0 ++ lenBytes64 (8 * message.length)

/-- The eight words, most significant byte first. -/
def Words.bytes (v : Words) : Digest :=
  let w (x : UInt32) (i : Nat) : UInt8 := UInt8.ofNat (x.toNat / 256 ^ (3 - i))
  #v[w v.a 0, w v.a 1, w v.a 2, w v.a 3, w v.b 0, w v.b 1, w v.b 2, w v.b 3,
     w v.c 0, w v.c 1, w v.c 2, w v.c 3, w v.d 0, w v.d 1, w v.d 2, w v.d 3,
     w v.e 0, w v.e 1, w v.e 2, w v.e 3, w v.f 0, w v.f 1, w v.f 2, w v.f 3,
     w v.g 0, w v.g 1, w v.g 2, w v.g 3, w v.h 0, w v.h 1, w v.h 2, w v.h 3]

/-- SHA-256 as the standard defines it. -/
@[reducible] def fips : Sha256 where
  digest message :=
    let padded := pad message
    ((pieces 64 (padded.length / 64) padded).foldl compress Words.initial).bytes

-- The standard's test vector for "abc".
example : (fips.digest [0x61, 0x62, 0x63]).toList.take 8 =
    [0xba, 0x78, 0x16, 0xbf, 0x8f, 0x01, 0xcf, 0xea] := by decide +kernel

end Sha256

end AppCore
