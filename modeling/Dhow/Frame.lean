import Dhow.Blake3
import Dhow.Crc32c
import Dhow.Errors

/-!
# Frames

The frame wire format of `frame.rs`: a 46-byte header and a payload. The header's constant fields
carry their values, the keyed MAC covers the header's fields except the MAC and the checksum, and
the checksum covers the payload. A parsed frame is a prefix of the string it was parsed from: the
parser reads the declared length and ignores what follows.
-/

namespace Dhow
open Bytes

/-- ASCII "DHOW". -/
def frameMagic : Arr 4 := ⟨[0x44, 0x48, 0x4F, 0x57], rfl⟩

def frameVersion : UInt8 := 1
def frameHeaderSize : ℕ := 46
def maxPayloadLen : ℕ := 65535

inductive FrameType
  | session
  | repair
  | manifest
  deriving DecidableEq

namespace FrameType

def toByte : FrameType → UInt8
  | session => 0
  | repair => 1
  | manifest => 2

def tryFrom (value : UInt8) : Except FrameError FrameType :=
  if value = 0 then .ok session
  else if value = 1 then .ok repair
  else if value = 2 then .ok manifest
  else .error (.unknownFrameType value)

@[simp] lemma tryFrom_toByte (t : FrameType) : tryFrom t.toByte = .ok t := by cases t <;> rfl

lemma toByte_of_tryFrom {value : UInt8} {t : FrameType} (h : tryFrom value = .ok t) :
    t.toByte = value := by
  unfold tryFrom at h
  split_ifs at h with h0 h1 h2 <;> cases h <;> simp [toByte, *]

end FrameType

structure FrameHeader where
  magic : Arr 4
  version : UInt8
  frameType : FrameType
  reserved : UInt16
  sessionId : Arr 16
  truncatedMac : Arr 8
  blockIndex : UInt32
  symbolIndex : UInt32
  payloadLength : UInt16
  crc32c : UInt32
  magic_eq : magic = frameMagic
  version_eq : version = frameVersion
  reserved_eq : reserved = 0
  deriving DecidableEq

namespace FrameHeader

/-- The constructor's assertion on the payload's length is the argument `h`. -/
def new (frameType : FrameType) (sessionId : Arr 16) (blockIndex symbolIndex : UInt32)
    (payload : Str) (_h : payload.length ≤ maxPayloadLen) : FrameHeader where
  magic := frameMagic
  version := frameVersion
  frameType := frameType
  reserved := 0
  sessionId := sessionId
  truncatedMac := List.Vector.replicate 8 0
  blockIndex := blockIndex
  symbolIndex := symbolIndex
  payloadLength := UInt16.ofNat payload.length
  crc32c := crc32cDigest payload
  magic_eq := rfl
  version_eq := rfl
  reserved_eq := rfl

def toVec (h : FrameHeader) : Str :=
  h.magic.toList ++ ([h.version] ++ ([h.frameType.toByte] ++ (u16le h.reserved ++
    (h.sessionId.toList ++ (h.truncatedMac.toList ++ (u32le h.blockIndex ++
      (u32le h.symbolIndex ++ (u16le h.payloadLength ++ u32le h.crc32c))))))))

def fromBytes (bytes : Str) : Except FrameError FrameHeader :=
  if bytes.length < frameHeaderSize then .error (.headerTooShort bytes.length)
  else
    if hmagic : arrAt 4 bytes 0 ≠ frameMagic then .error (.invalidMagic (arrAt 4 bytes 0))
    else if hversion : u8At bytes 4 ≠ frameVersion then
      .error (.unsupportedVersion (u8At bytes 4))
    else
      match FrameType.tryFrom (u8At bytes 5) with
      | .error e => .error e
      | .ok frameType =>
        if hreserved : u16At bytes 6 ≠ 0 then .error (.reservedFieldNonZero (u16At bytes 6))
        else
          .ok
            { magic := arrAt 4 bytes 0
              version := u8At bytes 4
              frameType := frameType
              reserved := u16At bytes 6
              sessionId := arrAt 16 bytes 8
              truncatedMac := arrAt 8 bytes 24
              blockIndex := u32At bytes 32
              symbolIndex := u32At bytes 36
              payloadLength := u16At bytes 40
              crc32c := u32At bytes 42
              magic_eq := not_not.mp hmagic
              version_eq := not_not.mp hversion
              reserved_eq := not_not.mp hreserved }

def setMac (h : FrameHeader) (mac : Arr 8) : FrameHeader := { h with truncatedMac := mac }

/-- The bytes the MAC covers. -/
def macInput (h : FrameHeader) : Str :=
  h.magic.toList ++ ([h.version] ++ ([h.frameType.toByte] ++ (h.sessionId.toList ++
    (u32le h.blockIndex ++ (u32le h.symbolIndex ++ u16le h.payloadLength)))))

def computeMac (b3 : Blake3) (h : FrameHeader) (sessionKey : Arr 32) : Arr 8 :=
  arrAt 8 (b3.keyedHash sessionKey h.macInput).toList 0

end FrameHeader

structure Frame where
  header : FrameHeader
  payload : Str
  deriving DecidableEq

namespace Frame

def build (b3 : Blake3) (header : FrameHeader) (payload : Str) (sessionKey : Arr 32) : Frame :=
  ⟨header.setMac (header.computeMac b3 sessionKey), payload⟩

def toVec (f : Frame) : Str := f.header.toVec ++ f.payload

/-- `toVec` for a frame the caller is finished with. -/
def intoVec (f : Frame) : Str := f.header.toVec ++ f.payload

def fromBytes (b3 : Blake3) (bytes : Str) (sessionKey : Arr 32) : Except FrameError Frame :=
  match FrameHeader.fromBytes bytes with
  | .error e => .error e
  | .ok header =>
    if header.truncatedMac ≠ header.computeMac b3 sessionKey then .error .macVerificationFailed
    else
      let stop := frameHeaderSize + header.payloadLength.toNat
      if bytes.length < stop then .error (.truncated stop bytes.length)
      else
        let payload := slice bytes frameHeaderSize header.payloadLength.toNat
        if crc32cDigest payload ≠ header.crc32c then
          .error (.crcMismatch header.crc32c (crc32cDigest payload))
        else .ok ⟨header, payload⟩

end Frame

/-! ### What a parsed header says of the string -/

namespace FrameHeader

@[simp] lemma length_toVec (h : FrameHeader) : h.toVec.length = frameHeaderSize := by
  simp [toVec, frameHeaderSize]

@[simp] lemma setMac_truncatedMac (h : FrameHeader) (mac : Arr 8) :
    (h.setMac mac).truncatedMac = mac := rfl

@[simp] lemma setMac_macInput (h : FrameHeader) (mac : Arr 8) :
    (h.setMac mac).macInput = h.macInput := rfl

@[simp] lemma setMac_computeMac (b3 : Blake3) (h : FrameHeader) (mac : Arr 8) (key : Arr 32) :
    (h.setMac mac).computeMac b3 key = h.computeMac b3 key := rfl

/-- The MAC'd bytes determine the MAC'd fields. -/
lemma macInput_inj {g h : FrameHeader} (e : g.macInput = h.macInput) :
    g.frameType = h.frameType ∧ g.sessionId = h.sessionId ∧ g.blockIndex = h.blockIndex ∧
      g.symbolIndex = h.symbolIndex ∧ g.payloadLength = h.payloadLength := by
  unfold macInput at e
  obtain ⟨-, e⟩ := List.append_inj e (by simp)
  obtain ⟨-, e⟩ := List.append_inj e rfl
  obtain ⟨et, e⟩ := List.append_inj e rfl
  obtain ⟨es, e⟩ := List.append_inj e (by simp)
  obtain ⟨eb, e⟩ := List.append_inj e (by simp)
  obtain ⟨ey, ep⟩ := List.append_inj e (by simp)
  refine ⟨?_, Subtype.ext es, ?_, ?_, ?_⟩
  · have h1 := FrameType.tryFrom_toByte g.frameType
    rw [List.singleton_inj.mp et, FrameType.tryFrom_toByte, Except.ok.injEq] at h1
    exact h1.symm
  · rw [← u32At_u32le g.blockIndex, eb, u32At_u32le]
  · rw [← u32At_u32le g.symbolIndex, ey, u32At_u32le]
  · have h1 := u16At_u16le_append g.payloadLength []
    have h2 := u16At_u16le_append h.payloadLength []
    rw [← h1, ep, h2]

/-- Each read of the parser finds its field in a serialized header. -/
lemma reads_toVec_append (h : FrameHeader) (rest : Str) :
    arrAt 4 (h.toVec ++ rest) 0 = h.magic ∧ u8At (h.toVec ++ rest) 4 = h.version ∧
      u8At (h.toVec ++ rest) 5 = h.frameType.toByte ∧ u16At (h.toVec ++ rest) 6 = h.reserved ∧
      arrAt 16 (h.toVec ++ rest) 8 = h.sessionId ∧
      arrAt 8 (h.toVec ++ rest) 24 = h.truncatedMac ∧
      u32At (h.toVec ++ rest) 32 = h.blockIndex ∧ u32At (h.toVec ++ rest) 36 = h.symbolIndex ∧
      u16At (h.toVec ++ rest) 40 = h.payloadLength ∧ u32At (h.toVec ++ rest) 42 = h.crc32c := by
  simp [toVec, arrAt_append_right, u8At_append_right, u16At_append_right, u32At_append_right]

lemma fromBytes_toVec_append (h : FrameHeader) (rest : Str) :
    fromBytes (h.toVec ++ rest) = .ok h := by
  obtain ⟨r1, r2, r3, r4, r5, r6, r7, r8, r9, r10⟩ := reads_toVec_append h rest
  have hlen : ¬(h.toVec ++ rest).length < frameHeaderSize := by simp
  obtain ⟨magic, version, frameType, reserved, sessionId, mac, block, symbol, len, crc,
    rfl, rfl, rfl⟩ := h
  simp only [fromBytes, r1, r2, r3, r4, r5, r6, r7, r8, r9, r10, hlen,
    FrameType.tryFrom_toByte, ne_eq, not_true_eq_false, if_false, dite_false]

/-- A parsed header is the string's first 46 bytes. -/
lemma eq_toVec_append {bytes : Str} {h : FrameHeader} (e : fromBytes bytes = .ok h) :
    bytes = h.toVec ++ bytes.drop frameHeaderSize := by
  unfold fromBytes at e
  cases ht : FrameType.tryFrom (u8At bytes 5) with
  | error err =>
    simp only [ht] at e
    split_ifs at e
  | ok frameType =>
    simp only [ht] at e
    split_ifs at e with hlen hmagic hversion hreserved
    cases e
    have hle : 46 ≤ bytes.length := Nat.le_of_not_lt hlen
    simp only [toVec, FrameType.toByte_of_tryFrom ht]
    rw [arrAt_toList (by omega), ← slice_eq_singleton (by omega), ← slice_eq_singleton (by omega),
      u16le_u16At (by omega), arrAt_toList (by omega), arrAt_toList (by omega),
      u32le_u32At (by omega), u32le_u32At (by omega), u16le_u16At (by omega),
      u32le_u32At (by omega)]
    rw [slice_append_slice bytes 40 2 4, slice_append_slice bytes 36 4 6,
      slice_append_slice bytes 32 4 10, slice_append_slice bytes 24 8 14,
      slice_append_slice bytes 8 16 22, slice_append_slice bytes 6 2 38,
      slice_append_slice bytes 5 1 40, slice_append_slice bytes 4 1 41,
      slice_append_slice bytes 0 4 42]
    exact (List.take_append_drop 46 bytes).symm

end FrameHeader

namespace Frame

/-- Parsing succeeds exactly on an authenticated frame with a matching checksum, whatever
follows it. -/
theorem fromBytes_eq_ok_iff (b3 : Blake3) (bytes : Str) (key : Arr 32) (f : Frame) :
    fromBytes b3 bytes key = .ok f ↔
      f.header.truncatedMac = f.header.computeMac b3 key ∧
      f.payload.length = f.header.payloadLength.toNat ∧
      crc32cDigest f.payload = f.header.crc32c ∧
      ∃ rest, bytes = f.toVec ++ rest := by
  constructor
  · intro e
    unfold fromBytes at e
    cases hh : FrameHeader.fromBytes bytes with
    | error err => simp [hh] at e
    | ok header =>
      simp only [hh] at e
      split_ifs at e with hmac hlen hcrc
      cases e
      have hb := FrameHeader.eq_toVec_append hh
      have hlen' : frameHeaderSize + header.payloadLength.toNat ≤ bytes.length :=
        Nat.le_of_not_lt hlen
      refine ⟨not_not.mp hmac, length_slice_of_le hlen', not_not.mp hcrc,
        (bytes.drop frameHeaderSize).drop header.payloadLength.toNat, ?_⟩
      rw [toVec, List.append_assoc, slice, List.take_append_drop]
      exact hb
  · rintro ⟨hmac, hlen, hcrc, rest, rfl⟩
    have hstop : ¬(f.toVec ++ rest).length < frameHeaderSize + f.header.payloadLength.toNat := by
      simp only [toVec, List.length_append, FrameHeader.length_toVec]
      omega
    have hpay : slice (f.toVec ++ rest) frameHeaderSize f.header.payloadLength.toNat =
        f.payload := by
      rw [toVec, List.append_assoc, slice_append_right (by simp), FrameHeader.length_toVec,
        Nat.sub_self, ← hlen, slice_append_left (by simp), slice_zero_length]
    have hh : FrameHeader.fromBytes (f.toVec ++ rest) = .ok f.header := by
      rw [toVec, List.append_assoc]
      exact FrameHeader.fromBytes_toVec_append _ _
    simp only [fromBytes, hh, hmac, hpay, hcrc, hstop, ne_eq, not_true_eq_false, if_false]

/-- A built frame parses back, whatever follows it. -/
theorem fromBytes_build (b3 : Blake3) (key : Arr 32) (frameType : FrameType) (sessionId : Arr 16)
    (block symbol : UInt32) (payload : Str) (h : payload.length ≤ maxPayloadLen) (rest : Str) :
    let f := build b3 (.new frameType sessionId block symbol payload h) payload key
    fromBytes b3 (f.toVec ++ rest) key = .ok f := by
  refine (fromBytes_eq_ok_iff b3 _ key _).mpr ⟨rfl, ?_, rfl, rest, rfl⟩
  have hlt : payload.length < 2 ^ 16 := by
    unfold maxPayloadLen at h
    omega
  exact (UInt16.toNat_ofNat_of_lt' hlt).symm

end Frame
end Dhow
