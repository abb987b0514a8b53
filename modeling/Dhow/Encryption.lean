import Dhow.Blake3
import Dhow.Lib.Utf8

/-!
# Keys and payload encryption

The key derivation of `kdf.rs`, HKDF over the keyed hash, and the payload encryption of
`aead.rs`. The authenticated cipher is not part of the repository and is a parameter.
-/

namespace Dhow
open Bytes

def maxOkmLen : ℕ := 255 * 32
def infoPayloadKey : Str := asBytes "dhow v1 payload encryption key"
def infoSessionKey : Str := asBytes "dhow v1 frame session key"

inductive AeadError
  | encryptionFailed (details : String)
  | decryptionFailed (details : String)
  | keyDerivationFailed (details : String)
  deriving DecidableEq

/-! ### Key derivation -/

section Kdf
variable (b3 : Blake3)

def extract (salt : Arr 32) (ikm : Str) : Arr 32 := b3.keyedHash salt ikm

/-- The expand loop over the counters left, with the block before and the output so far. -/
def expandFrom (prk : Arr 32) (info : Str) (outLen : ℕ) :
    (counters previous okm : Str) → Str
  | [], _, okm => okm
  | counter :: counters, previous, okm =>
    if outLen ≤ okm.length then okm
    else
      let block := (b3.keyedHash prk (previous ++ (info ++ [counter]))).toList
      expandFrom prk info outLen counters block
        (okm ++ block.take (min (outLen - okm.length) block.length))

def expand (prk : Arr 32) (info : Str) (outLen : ℕ) : Except AeadError Str :=
  if maxOkmLen < outLen then
    .error (.keyDerivationFailed s!"requested {outLen} bytes, maximum is {maxOkmLen}")
  else .ok (expandFrom b3 prk info outLen ((List.range' 1 255).map UInt8.ofNat) [] [])

def derive (salt : Arr 32) (ikm info : Str) (outLen : ℕ) : Except AeadError Str :=
  expand b3 (extract b3 salt ikm) info outLen

def deriveKey (salt : Arr 32) (ikm info : Str) : Except AeadError (Arr 32) :=
  match derive b3 salt ikm info 32 with
  | .error e => .error e
  | .ok bytes => .ok (arrAt 32 bytes 0)

/-- A key takes one block of output. -/
lemma deriveKey_eq (salt : Arr 32) (ikm info : Str) :
    deriveKey b3 salt ikm info = .ok (b3.keyedHash (extract b3 salt ikm) (info ++ [1])) := by
  have hcounters : (List.range' 1 255).map UInt8.ofNat =
      1 :: 2 :: (List.range' 3 253).map UInt8.ofNat := rfl
  have hlen : (b3.keyedHash (extract b3 salt ikm) (info ++ [1])).toList.length = 32 :=
    List.Vector.toList_length _
  have htake := List.take_of_length_le hlen.le
  rw [deriveKey, derive, expand, if_neg (by decide), hcounters, expandFrom]
  rw [if_neg (by simp)]
  dsimp only
  rw [List.nil_append, List.nil_append, hlen, List.length_nil, Nat.sub_zero, Nat.min_self, htake,
    expandFrom, if_pos hlen.ge, arrAt_toList_zero]

end Kdf

structure TransferKeys where
  payloadKey : Arr 32
  sessionKey : Arr 32

def TransferKeys.derive (b3 : Blake3) (operator salt : Arr 32) : Except AeadError TransferKeys :=
  match deriveKey b3 salt operator.toList infoPayloadKey with
  | .error e => .error e
  | .ok payloadKey =>
    match deriveKey b3 salt operator.toList infoSessionKey with
    | .error e => .error e
    | .ok sessionKey => .ok ⟨payloadKey, sessionKey⟩

/-- Deriving the keys of a transfer never fails. -/
lemma TransferKeys.exists_derive (b3 : Blake3) (operator salt : Arr 32) :
    ∃ keys, TransferKeys.derive b3 operator salt = .ok keys := by
  simp only [TransferKeys.derive, deriveKey_eq, Except.ok.injEq, exists_eq']

/-! ### Encryption -/

def tagLen : ℕ := 16

/-- XChaCha20-Poly1305 of the `chacha20poly1305` crate: a message or a ciphertext with its tag,
under a key, a nonce and associated data. -/
structure Aead where
  encrypt : (key : Arr 32) → (nonce : Arr 24) → (aad msg : Str) → Option Str
  decrypt : (key : Arr 32) → (nonce : Arr 24) → (aad buffer : Str) → Option Str

/-- A ciphertext is longer than its message by the tag, and decrypts to it. -/
def Aead.Correct (aead : Aead) : Prop :=
  ∀ key nonce aad msg c, aead.encrypt key nonce aad msg = some c →
    c.length = msg.length + tagLen ∧ aead.decrypt key nonce aad c = some msg

def encryptPayload (aead : Aead) (keys : TransferKeys) (nonce : Arr 24) (sessionId : Arr 16)
    (plaintext : Str) : Except AeadError Str :=
  match aead.encrypt keys.payloadKey nonce sessionId.toList plaintext with
  | none => .error (.encryptionFailed "AEAD encryption failed")
  | some ciphertext => .ok ciphertext

def decryptPayloadInPlace (aead : Aead) (keys : TransferKeys) (nonce : Arr 24)
    (sessionId : Arr 16) (buffer : Str) : Except AeadError Str :=
  if buffer.length < tagLen then
    .error (.decryptionFailed s!"ciphertext is shorter than the {tagLen}-byte tag")
  else
    match aead.decrypt keys.payloadKey nonce sessionId.toList buffer with
    | none => .error (.decryptionFailed "authentication failed")
    | some plaintext => .ok plaintext

lemma decryptPayloadInPlace_of_encryptPayload {aead : Aead} (h : aead.Correct)
    {keys : TransferKeys} {nonce : Arr 24} {sessionId : Arr 16} {plaintext ciphertext : Str}
    (he : encryptPayload aead keys nonce sessionId plaintext = .ok ciphertext) :
    ciphertext.length = plaintext.length + tagLen ∧
      decryptPayloadInPlace aead keys nonce sessionId ciphertext = .ok plaintext := by
  unfold encryptPayload at he
  cases hc : aead.encrypt keys.payloadKey nonce sessionId.toList plaintext with
  | none => simp [hc] at he
  | some c =>
    simp only [hc, Except.ok.injEq] at he
    subst he
    obtain ⟨hlen, hdec⟩ := h _ _ _ _ _ hc
    refine ⟨hlen, ?_⟩
    rw [decryptPayloadInPlace, if_neg (by omega), hdec]

end Dhow
