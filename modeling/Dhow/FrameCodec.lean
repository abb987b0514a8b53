import Dhow.Blake3Reference
import Dhow.Frame

/-!
# The frame codec

What is built is read back, field by field. What is read was built, but with more bytes behind it
than the header declares a string is read as the frame it begins with, and the frame no longer
accounts for the string.
-/

namespace Dhow
open Bytes

namespace Frame
variable {b3 : Blake3} {bytes : Str} {key : Arr 32} {f : Frame}

/-- Bytes that a frame built under the key begins, with at least one behind it. -/
def Tailed (b3 : Blake3) (bytes : Str) (key : Arr 32) : Prop :=
  ∃ frameType sessionId block symbol payload, ∃ h : payload.length ≤ maxPayloadLen,
    ∃ rest ≠ [],
      bytes = (build b3 (.new frameType sessionId block symbol payload h) payload key).toVec ++ rest

/-- A frame that was read is one that was built. -/
lemma eq_build_of_fromBytes (e : fromBytes b3 bytes key = .ok f) :
    ∃ h : f.payload.length ≤ maxPayloadLen,
      f = build b3 (.new f.header.frameType f.header.sessionId f.header.blockIndex
        f.header.symbolIndex f.payload h) f.payload key := by
  obtain ⟨hmac, hlen, hcrc, -⟩ := (fromBytes_eq_ok_iff b3 bytes key f).mp e
  have hle : f.payload.length ≤ maxPayloadLen := by
    have := f.header.payloadLength.toNat_lt
    unfold maxPayloadLen
    omega
  refine ⟨hle, ?_⟩
  obtain ⟨⟨magic, version, frameType, reserved, sessionId, mac, block, symbol, len, crc,
    rfl, rfl, rfl⟩, payload⟩ := f
  dsimp only at hmac hlen hcrc hle ⊢
  have hword : UInt16.ofNat payload.length = len := by rw [hlen, UInt16.ofNat_toNat]
  subst hword
  subst hcrc
  -- The MAC does not cover itself.
  change mac = (FrameHeader.new frameType sessionId block symbol payload hle).computeMac b3 key
    at hmac
  subst hmac
  rfl

/-- Building and parsing are inverse, but for the bytes that follow a frame. -/
theorem codec_canonical_iff (b3 : Blake3) :
    (∀ frameType sessionId block symbol payload (h : payload.length ≤ maxPayloadLen) key,
      let header := FrameHeader.new frameType sessionId block symbol payload h
      let f := build b3 header payload key
      fromBytes b3 f.toVec key = .ok f ∧
        f.header = header.setMac (header.computeMac b3 key) ∧
        f.header.crc32c = crc32cDigest payload ∧ f.payload = payload ∧ f.intoVec = f.toVec) ∧
      ∀ bytes key, (∀ f, fromBytes b3 bytes key = .ok f → f.toVec = bytes) ↔
        ¬Tailed b3 bytes key := by
  constructor
  · intro frameType sessionId block symbol payload h key
    have hparse := fromBytes_build b3 key frameType sessionId block symbol payload h []
    simp only [List.append_nil] at hparse
    exact ⟨hparse, rfl, rfl, rfl, rfl⟩
  · intro bytes key
    constructor
    · rintro hcanon ⟨frameType, sessionId, block, symbol, payload, h, rest, hne, rfl⟩
      have hself := hcanon _ (fromBytes_build b3 key frameType sessionId block symbol payload h rest)
      exact hne (List.self_eq_append_right.mp hself)
    · intro htail f hf
      obtain ⟨h, hbuilt⟩ := eq_build_of_fromBytes hf
      obtain ⟨-, -, -, rest, rfl⟩ := (fromBytes_eq_ok_iff b3 bytes key f).mp hf
      by_contra hne
      apply htail
      refine ⟨_, _, _, _, _, h, rest, ?_, by rw [← hbuilt]⟩
      rintro rfl
      exact hne (List.append_nil _).symm

/-- An empty frame with one more byte behind it is read as the frame alone. -/
theorem tailed_not_canonical :
    let f := build Blake3Reference.blake3 (.new .repair (zeros 16) 0 0 [] (Nat.zero_le _)) []
      (zeros 32)
    fromBytes Blake3Reference.blake3 (f.toVec ++ [0]) (zeros 32) = .ok f ∧
      f.toVec ≠ f.toVec ++ [0] := by
  refine ⟨fromBytes_build _ _ _ _ _ _ _ _ _, fun h => ?_⟩
  have hnil := List.self_eq_append_right.mp h
  exact List.cons_ne_nil _ _ hnil

end Frame
end Dhow
