import Dhow.Encryption

/-!
# Reference XChaCha20-Poly1305

The published cipher as an `Aead` that computes: ChaCha20 under a subkey of HChaCha20, and the
Poly1305 tag of the padded data under the first block of the key stream.
-/

namespace Dhow.XChaCha20Poly1305
open Bytes

/-- The words of "expand 32-byte k". -/
def constants : List UInt32 := [0x61707865, 0x3320646e, 0x79622d32, 0x6b206574]

def rotateLeft (x n : UInt32) : UInt32 := (x <<< n) ||| (x >>> (32 - n))

def quarterRound (v : List UInt32) (a b c d : ℕ) : List UInt32 :=
  let va := v.getD a 0 + v.getD b 0
  let vd := rotateLeft (v.getD d 0 ^^^ va) 16
  let vc := v.getD c 0 + vd
  let vb := rotateLeft (v.getD b 0 ^^^ vc) 12
  let va := va + vb
  let vd := rotateLeft (vd ^^^ va) 8
  let vc := vc + vd
  let vb := rotateLeft (vb ^^^ vc) 7
  (((v.set a va).set b vb).set c vc).set d vd

/-- A column round and a diagonal round. -/
def doubleRound (v : List UInt32) : List UInt32 :=
  let v := quarterRound v 0 4 8 12
  let v := quarterRound v 1 5 9 13
  let v := quarterRound v 2 6 10 14
  let v := quarterRound v 3 7 11 15
  let v := quarterRound v 0 5 10 15
  let v := quarterRound v 1 6 11 12
  let v := quarterRound v 2 7 8 13
  quarterRound v 3 4 9 14

def rounds : ℕ → List UInt32 → List UInt32
  | 0, v => v
  | n + 1, v => rounds n (doubleRound v)

def words (n : ℕ) (bytes : Str) : List UInt32 := (List.range n).map fun i => u32At bytes (4 * i)

/-- The subkey of a key under the first sixteen bytes of a nonce. -/
def hChaCha20 (key nonce : Str) : Str :=
  let v := rounds 10 (constants ++ (words 8 key ++ words 4 nonce))
  (v.take 4 ++ v.drop 12).flatMap u32le

/-- One block of key stream, for a nonce of eight bytes. -/
def block (key nonce : Str) (counter : ℕ) : Str :=
  let v := constants ++ (words 8 key ++ ([UInt32.ofNat counter, 0] ++ words 2 nonce))
  (List.zipWith (· + ·) v (rounds 10 v)).flatMap u32le

/-- `n` bytes of key stream, from block one on. -/
def keyStream (key nonce : Str) (n : ℕ) : Str :=
  ((List.range ((n + 63) / 64)).flatMap fun i => block key nonce (i + 1)).takeD n 0

def xor (data stream : Str) : Str := List.zipWith (· ^^^ ·) data stream

/-- Zeros up to a multiple of sixteen bytes. -/
def pad16 (data : Str) : Str := data ++ List.replicate ((16 - data.length % 16) % 16) 0

def poly1305 (key data : Str) : Str :=
  let r := natAt 16 key 0 &&& 0x0ffffffc0ffffffc0ffffffc0fffffff
  let accumulate (acc i : ℕ) : ℕ :=
    (acc + leDecode (slice data (16 * i) 16 ++ [1])) * r % (2 ^ 130 - 5)
  leEncode 16 ((List.range ((data.length + 15) / 16)).foldl accumulate 0 + natAt 16 key 16)

def tag (key nonce aad ciphertext : Str) : Str :=
  poly1305 (block key nonce 0) (pad16 aad ++ (pad16 ciphertext ++
    (u64le (UInt64.ofNat aad.length) ++ u64le (UInt64.ofNat ciphertext.length))))

/-- Messages are bounded by the block counter. -/
def encrypt (key : Arr 32) (nonce : Arr 24) (aad msg : Str) : Option Str :=
  let subkey := hChaCha20 key.toList (nonce.toList.take 16)
  let nonce := nonce.toList.drop 16
  if 2 ^ 32 - 1 ≤ msg.length / 64 then none
  else
    let ciphertext := xor msg (keyStream subkey nonce msg.length)
    some (ciphertext ++ tag subkey nonce aad ciphertext)

def decrypt (key : Arr 32) (nonce : Arr 24) (aad buffer : Str) : Option Str :=
  let subkey := hChaCha20 key.toList (nonce.toList.take 16)
  let nonce := nonce.toList.drop 16
  let ciphertext := buffer.take (buffer.length - tagLen)
  if buffer.length < tagLen ∨ 2 ^ 32 - 1 ≤ ciphertext.length / 64 then none
  else if buffer.drop (buffer.length - tagLen) ≠ tag subkey nonce aad ciphertext then none
  else some (xor ciphertext (keyStream subkey nonce ciphertext.length))

def aead : Aead := ⟨encrypt, decrypt⟩

lemma length_keyStream (key nonce : Str) (n : ℕ) : (keyStream key nonce n).length = n :=
  List.takeD_length _ _ _

lemma length_xor {data stream : Str} (h : stream.length = data.length) :
    (xor data stream).length = data.length := by
  rw [xor, List.length_zipWith, h, Nat.min_self]

lemma xor_xor {data stream : Str} (h : stream.length = data.length) :
    xor (xor data stream) stream = data := by
  unfold xor
  apply List.ext_getElem
  · rw [List.length_zipWith, List.length_zipWith, h, Nat.min_self, Nat.min_self]
  · intro i h1 h2
    rw [List.getElem_zipWith, List.getElem_zipWith, UInt8.xor_assoc, UInt8.xor_self,
      UInt8.xor_zero]

lemma length_tag (key nonce aad ciphertext : Str) :
    (tag key nonce aad ciphertext).length = tagLen :=
  length_leEncode _ _

/-- A message that the block counter covers is encrypted. -/
lemma exists_encrypt (key : Arr 32) (nonce : Arr 24) (aad : Str) {msg : Str}
    (h : msg.length / 64 < 2 ^ 32 - 1) : ∃ c, aead.encrypt key nonce aad msg = some c := by
  change ∃ c, encrypt key nonce aad msg = some c
  rw [encrypt, if_neg (Nat.not_le.mpr h)]
  exact ⟨_, rfl⟩

theorem aead_correct : aead.Correct := by
  intro key nonce aad msg c h
  change encrypt key nonce aad msg = some c at h
  change _ ∧ decrypt key nonce aad c = some msg
  unfold encrypt at h
  unfold decrypt
  extract_lets subkey nonce' ciphertext at h
  split_ifs at h with hmax
  cases h
  have hstream : (keyStream subkey nonce' msg.length).length = msg.length := length_keyStream _ _ _
  have hlen : ciphertext.length = msg.length := length_xor hstream
  have hc : (ciphertext ++ tag subkey nonce' aad ciphertext).length = msg.length + tagLen := by
    rw [List.length_append, hlen, length_tag]
  have htake : (ciphertext ++ tag subkey nonce' aad ciphertext).take msg.length = ciphertext :=
    hlen ▸ List.take_left
  have hdrop : (ciphertext ++ tag subkey nonce' aad ciphertext).drop msg.length =
      tag subkey nonce' aad ciphertext := hlen ▸ List.drop_left
  refine ⟨hc, ?_⟩
  rw [hc, Nat.add_sub_cancel, htake, hdrop]
  dsimp only
  rw [hlen, if_neg (by omega), if_neg (not_not.mpr rfl), xor_xor hstream]

end Dhow.XChaCha20Poly1305
