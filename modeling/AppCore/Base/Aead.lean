import AppCore.Base.Word

/-!
# Authenticated encryption

The cipher comes from a third-party crate, so the development takes it as a class with three
functions, and its documented behaviour as named hypotheses: decryption undoes encryption
(`Aead.Correct`), and the detached variant does the same in place (`Aead.Detached`).
`xChaCha20Poly1305` is the cipher the crate implements, for evaluating concrete inputs.
-/

namespace AppCore

abbrev SecretKey := Vector UInt8 32

abbrev Nonce := Vector UInt8 24

/-- The cipher the program links against. Each function takes the key, the nonce and the
associated data first. -/
class Aead where
  encrypt : SecretKey → Nonce → Bytes → Bytes → Option Bytes
  decrypt : SecretKey → Nonce → Bytes → Bytes → Option Bytes
  /-- The buffer after its decryption in place; the tag is given apart from it. -/
  decryptInPlaceDetached : SecretKey → Nonce → Bytes → Bytes → Bytes → Option Bytes

def aeadTagBytes : Nat := 16

/-- Decryption undoes encryption, which adds the tag. -/
structure Aead.Correct (aead : Aead) : Prop where
  decrypt_encrypt {key : SecretKey} {nonce : Nonce} {aad plaintext ciphertext : Bytes}
    (h : aead.encrypt key nonce aad plaintext = some ciphertext) :
    aead.decrypt key nonce aad ciphertext = some plaintext
  length_encrypt {key : SecretKey} {nonce : Nonce} {aad plaintext ciphertext : Bytes}
    (h : aead.encrypt key nonce aad plaintext = some ciphertext) :
    ciphertext.length = plaintext.length + aeadTagBytes

/-- The tag is the end of the ciphertext, and decryption in place accepts the same inputs with
the same plaintext. -/
structure Aead.Detached (aead : Aead) : Prop where
  decrypt_short (key : SecretKey) (nonce : Nonce) (aad : Bytes) {ciphertext : Bytes}
    (h : ciphertext.length < aeadTagBytes) : aead.decrypt key nonce aad ciphertext = none
  decrypt_append (key : SecretKey) (nonce : Nonce) (aad buffer : Bytes) {tag : Bytes}
    (h : tag.length = aeadTagBytes) : aead.decrypt key nonce aad (buffer ++ tag) =
      aead.decryptInPlaceDetached key nonce aad buffer tag
  length_inPlace {key : SecretKey} {nonce : Nonce} {aad buffer tag plaintext : Bytes}
    (h : aead.decryptInPlaceDetached key nonce aad buffer tag = some plaintext) :
    plaintext.length = buffer.length

/-- An ideal cipher decrypts nothing but what was encrypted: `produced` holds the keys, nonces,
associated data and ciphertexts of the calls made so far. -/
def Aead.Ideal (aead : Aead) (produced : Set (SecretKey × Nonce × Bytes × Bytes)) : Prop :=
  ∀ key nonce aad ciphertext plaintext,
    aead.decrypt key nonce aad ciphertext = some plaintext →
    (key, nonce, aad, ciphertext) ∈ produced

/-! ## XChaCha20-Poly1305 -/

namespace ChaCha

/-- Rotate left. -/
def rotl (x : UInt32) (n : UInt32) : UInt32 := (x <<< n) ||| (x >>> (32 - n))

/-- Four words of a state. -/
structure Row where
  (a b c d : UInt32)

/-- A quarter round on four words. -/
def quarter (r : Row) : Row :=
  let a := r.a + r.b
  let d := rotl (r.d ^^^ a) 16
  let c := r.c + d
  let b := rotl (r.b ^^^ c) 12
  let a := a + b
  let d := rotl (d ^^^ a) 8
  let c := c + d
  let b := rotl (b ^^^ c) 7
  ⟨a, b, c, d⟩

/-- The sixteen words, as the four columns. -/
structure State where
  (w x y z : Row)

/-- A column round and a diagonal round. -/
def doubleRound (s : State) : State :=
  let w := quarter s.w
  let x := quarter s.x
  let y := quarter s.y
  let z := quarter s.z
  let p := quarter ⟨w.a, x.b, y.c, z.d⟩
  let q := quarter ⟨x.a, y.b, z.c, w.d⟩
  let r := quarter ⟨y.a, z.b, w.c, x.d⟩
  let t := quarter ⟨z.a, w.b, x.c, y.d⟩
  ⟨⟨p.a, t.b, r.c, q.d⟩, ⟨q.a, p.b, t.c, r.d⟩, ⟨r.a, q.b, p.c, t.d⟩, ⟨t.a, r.b, q.c, p.d⟩⟩

def rounds (s : State) : State := (List.range 10).foldl (fun s _ => doubleRound s) s

/-- Word `i` of a byte string, least significant byte first. -/
def wordAt (bytes : Bytes) (i : Nat) : UInt32 :=
  UInt32.ofNat (fromBe ((bytes.drop (4 * i)).take 4).reverse)

/-- The bytes of a number, least significant first. -/
def leBytes (n value : Nat) : Bytes := (beBytes n value).reverse

/-- The state for a key and the four words of a counter and nonce. -/
def initial (key : Bytes) (tail : Row) : State :=
  ⟨⟨0x61707865, wordAt key 0, wordAt key 4, tail.a⟩,
   ⟨0x3320646e, wordAt key 1, wordAt key 5, tail.b⟩,
   ⟨0x79622d32, wordAt key 2, wordAt key 6, tail.c⟩,
   ⟨0x6b206574, wordAt key 3, wordAt key 7, tail.d⟩⟩

/-- The words of a state in order. -/
def State.words (s : State) : List UInt32 :=
  [s.w.a, s.x.a, s.y.a, s.z.a, s.w.b, s.x.b, s.y.b, s.z.b,
   s.w.c, s.x.c, s.y.c, s.z.c, s.w.d, s.x.d, s.y.d, s.z.d]

def bytesOf (words : List UInt32) : Bytes := words.flatMap fun w => leBytes 4 w.toNat

/-- One block of the key stream. -/
def block (key nonce : Bytes) (counter : Nat) : Bytes :=
  let s := initial key
    ⟨UInt32.ofNat counter, wordAt nonce 0, wordAt nonce 1, wordAt nonce 2⟩
  bytesOf (List.zipWith (· + ·) (rounds s).words s.words)

/-- HChaCha20: the first and the last row after the rounds. -/
def hChaCha (key nonce : Bytes) : Bytes :=
  let s := rounds (initial key ⟨wordAt nonce 0, wordAt nonce 1, wordAt nonce 2, wordAt nonce 3⟩)
  bytesOf (s.words.take 4 ++ s.words.drop 12)

/-- The key stream for `length` bytes, from block `counter` on. -/
def keyStream (key nonce : Bytes) (counter length : Nat) : Bytes :=
  ((List.range (length / 64 + 1)).flatMap fun i => block key nonce (counter + i)).take length

/-- The bytes with the key stream added. -/
def xorBytes (bytes stream : Bytes) : Bytes := List.zipWith (· ^^^ ·) bytes stream

/-- One step of Poly1305: a piece with a one bit behind it. -/
def polyStep (r : Nat) (acc : Nat) (piece : Bytes) : Nat :=
  (acc + fromBe (piece ++ [1]).reverse) * r % (2 ^ 130 - 5)

/-- Pieces of sixteen bytes. -/
def pieces16 : Nat → Bytes → List Bytes
  | 0, _ => []
  | fuel + 1, bytes => if bytes.isEmpty then [] else bytes.take 16 :: pieces16 fuel (bytes.drop 16)

/-- Poly1305 of a message under a one-time key. -/
def poly1305 (key message : Bytes) : Bytes :=
  let r := fromBe (key.take 16).reverse &&& 0x0ffffffc0ffffffc0ffffffc0fffffff
  let s := fromBe (key.drop 16).reverse
  let acc := (pieces16 message.length message).foldl (polyStep r) 0
  leBytes 16 (acc + s)

/-- Zeros up to a multiple of sixteen. -/
def pad16 (bytes : Bytes) : Bytes := bytes ++ List.replicate ((16 - bytes.length % 16) % 16) 0

/-- The key and nonce of the inner cipher. -/
def inner (key : SecretKey) (nonce : Nonce) : Bytes × Bytes :=
  (hChaCha key.toList (nonce.toList.take 16), [0, 0, 0, 0] ++ nonce.toList.drop 16)

def tagOf (key : SecretKey) (nonce : Nonce) (aad ciphertext : Bytes) : Bytes :=
  let (subkey, subnonce) := inner key nonce
  poly1305 ((block subkey subnonce 0).take 32)
    (pad16 aad ++ pad16 ciphertext ++ leBytes 8 aad.length ++ leBytes 8 ciphertext.length)

/-- A message with the key stream added. -/
def transform (key : SecretKey) (nonce : Nonce) (message : Bytes) : Bytes :=
  let (subkey, subnonce) := inner key nonce
  xorBytes message (keyStream subkey subnonce 1 message.length)

/-- The crate refuses a message whose blocks the counter cannot number. -/
def tooLong (message : Bytes) : Prop := message.length / 64 ≥ 2 ^ 32 - 1

instance (message : Bytes) : Decidable (tooLong message) := inferInstanceAs (Decidable (_ ≥ _))

/-- Decryption with the tag apart. -/
def openDetached (key : SecretKey) (nonce : Nonce) (aad buffer tag : Bytes) : Option Bytes :=
  if tooLong buffer then none
  else if tag = tagOf key nonce aad buffer then some (transform key nonce buffer) else none

/-- Decryption with the tag at the end. -/
def openMessage (key : SecretKey) (nonce : Nonce) (aad ciphertext : Bytes) : Option Bytes :=
  if ciphertext.length < aeadTagBytes then none
  else openDetached key nonce aad (ciphertext.take (ciphertext.length - aeadTagBytes))
    (ciphertext.drop (ciphertext.length - aeadTagBytes))

/-- Encryption, with the tag at the end. -/
def sealMessage (key : SecretKey) (nonce : Nonce) (aad plaintext : Bytes) : Option Bytes :=
  if tooLong plaintext then none
  else some (transform key nonce plaintext ++ tagOf key nonce aad (transform key nonce plaintext))

end ChaCha

/-- XChaCha20-Poly1305. -/
@[reducible] def xChaCha20Poly1305 : Aead where
  encrypt := ChaCha.sealMessage
  decrypt := ChaCha.openMessage
  decryptInPlaceDetached := ChaCha.openDetached

namespace ChaCha

theorem length_bytesOf (words : List UInt32) : (bytesOf words).length = 4 * words.length := by
  induction words with
  | nil => rfl
  | cons w words ih =>
    have hw : (leBytes 4 w.toNat).length = 4 := by simp [leBytes]
    rw [bytesOf, List.flatMap_cons, List.length_append, hw, ← bytesOf, ih, List.length_cons]
    omega

theorem length_block (key nonce : Bytes) (counter : Nat) :
    (block key nonce counter).length = 64 := by
  simp [block, length_bytesOf, State.words]

theorem length_keyStream (key nonce : Bytes) (counter length : Nat) :
    (keyStream key nonce counter length).length = length := by
  have hblocks : ((List.range (length / 64 + 1)).flatMap fun i =>
      block key nonce (counter + i)).length = (length / 64 + 1) * 64 := by
    simp [List.length_flatMap, length_block]
  rw [keyStream, List.length_take, hblocks]
  omega

theorem xorBytes_cancel {bytes stream : Bytes} (h : bytes.length = stream.length) :
    xorBytes (xorBytes bytes stream) stream = bytes := by
  induction bytes generalizing stream with
  | nil => rfl
  | cons b bytes ih =>
    cases stream with
    | nil => simp at h
    | cons s stream =>
      have hrest := ih (Nat.succ.inj h)
      simp only [xorBytes, List.zipWith_cons_cons] at hrest ⊢
      rw [hrest, UInt8.xor_assoc, UInt8.xor_self, UInt8.xor_zero]

theorem length_transform (key : SecretKey) (nonce : Nonce) (message : Bytes) :
    (transform key nonce message).length = message.length := by
  simp [transform, xorBytes, length_keyStream]

theorem transform_transform (key : SecretKey) (nonce : Nonce) (message : Bytes) :
    transform key nonce (transform key nonce message) = message := by
  rw [transform, length_transform, transform]
  exact xorBytes_cancel (length_keyStream _ _ _ _).symm

theorem length_tagOf (key : SecretKey) (nonce : Nonce) (aad ciphertext : Bytes) :
    (tagOf key nonce aad ciphertext).length = aeadTagBytes := by
  simp [tagOf, poly1305, leBytes, aeadTagBytes]

theorem take_append_tag {buffer tag : Bytes} (h : tag.length = aeadTagBytes) :
    (buffer ++ tag).take ((buffer ++ tag).length - aeadTagBytes) = buffer ∧
      (buffer ++ tag).drop ((buffer ++ tag).length - aeadTagBytes) = tag := by
  have hlen : (buffer ++ tag).length - aeadTagBytes = buffer.length := by
    rw [List.length_append, h, Nat.add_sub_cancel]
  rw [hlen]
  exact ⟨List.take_left, List.drop_left⟩

end ChaCha

open ChaCha in
theorem xChaCha20Poly1305_detached : xChaCha20Poly1305.Detached where
  decrypt_short key nonce aad ciphertext h := if_pos h
  decrypt_append key nonce aad buffer tag h := by
    obtain ⟨hbuffer, htag⟩ := take_append_tag h
    have hlong : ¬ (buffer ++ tag).length < aeadTagBytes := by
      rw [List.length_append]
      omega
    show openMessage key nonce aad (buffer ++ tag) = openDetached key nonce aad buffer tag
    rw [openMessage, if_neg hlong, hbuffer, htag]
  length_inPlace {key nonce aad buffer tag plaintext} h := by
    have h : openDetached key nonce aad buffer tag = some plaintext := h
    unfold openDetached at h
    split at h
    · simp at h
    split at h
    · obtain rfl := Option.some.inj h
      exact length_transform key nonce buffer
    · simp at h

open ChaCha in
theorem sealMessage_eq_some {key : SecretKey} {nonce : Nonce} {aad plaintext ciphertext : Bytes}
    (h : sealMessage key nonce aad plaintext = some ciphertext) :
    ¬ tooLong plaintext ∧ ciphertext =
      transform key nonce plaintext ++ tagOf key nonce aad (transform key nonce plaintext) := by
  unfold sealMessage at h
  split at h
  · simp at h
  · rename_i hshort
    exact ⟨hshort, (Option.some.inj h).symm⟩

open ChaCha in
theorem xChaCha20Poly1305_correct : xChaCha20Poly1305.Correct where
  decrypt_encrypt {key nonce aad plaintext ciphertext} h := by
    obtain ⟨hshort, rfl⟩ := sealMessage_eq_some h
    rw [xChaCha20Poly1305_detached.decrypt_append _ _ _ _ (length_tagOf _ _ _ _)]
    have hshort' : ¬ tooLong (transform key nonce plaintext) := by
      rw [tooLong, length_transform]
      exact hshort
    show openDetached _ _ _ _ _ = _
    rw [openDetached, if_neg hshort', if_pos rfl, transform_transform]
  length_encrypt {key nonce aad plaintext ciphertext} h := by
    obtain ⟨-, rfl⟩ := sealMessage_eq_some h
    rw [List.length_append, length_transform, length_tagOf]

-- The published test vector of HChaCha20, by its first bytes.
example : (ChaCha.hChaCha ((List.range 32).map UInt8.ofNat)
    [0, 0, 0, 9, 0, 0, 0, 0x4a, 0, 0, 0, 0, 0x31, 0x41, 0x59, 0x27]).take 4 =
    [0x82, 0x41, 0x3b, 0x42] := by decide

end AppCore
