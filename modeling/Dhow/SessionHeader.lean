import Dhow.Crc32c
import Dhow.Session

/-!
# Session headers

The 126-byte header that carries the session parameters (`session.rs`). A header carries its
constants and its checksum as proofs; the constructor, the serializer and the parser each have
the list of fields as the source has it there.
-/

namespace Dhow
open Bytes

/-- ASCII "DSES". -/
def sessionMagic : Arr 4 := ⟨[0x44, 0x53, 0x45, 0x53], rfl⟩

def sessionVersion : UInt8 := 1
def sessionHeaderSize : ℕ := 126

/-- A word as `0x` and eight digits. -/
def hexWord (w : UInt32) : String :=
  "0x" ++ String.ofList ((List.range 8).reverse.map fun i => Nat.digitChar (w.toNat / 16 ^ i % 16))

/-- The bytes the constructor takes the checksum of. -/
def sessionCrcBytes (sessionId : Arr 16) (params : SessionParams) : Str :=
  [sessionVersion] ++ ((zeros 3).toList ++ (sessionId.toList ++ (u64le params.payloadSize ++
    (u32le params.blockCount ++ (u32le params.symbolSize ++
      (u32le params.sourceSymbolsPerBlock ++ (u32le params.totalSymbolsPerBlock ++
        (u32le params.raptorq.z ++ (u32le params.raptorq.n ++ (u16le params.raptorq.psi ++
          (params.payloadDigest.toList ++ (zeros 32).toList)))))))))))

structure SessionHeader where
  magic : Arr 4
  version : UInt8
  reserved1 : Arr 3
  sessionId : Arr 16
  params : SessionParams
  reserved2 : Arr 32
  crc32c : UInt32
  magic_eq : magic = sessionMagic
  version_eq : version = sessionVersion
  reserved_eq : reserved1 = zeros 3 ∧ reserved2 = zeros 32
  crc32c_eq : crc32c = crc32cDigest (sessionCrcBytes sessionId params)

/-- The parameters as the parser reads them. -/
def sessionParamsAt (bytes : Str) : SessionParams where
  payloadSize := u64At bytes 24
  blockCount := u32At bytes 32
  symbolSize := u32At bytes 36
  sourceSymbolsPerBlock := u32At bytes 40
  totalSymbolsPerBlock := u32At bytes 44
  raptorq := ⟨u32At bytes 48, u32At bytes 52, u16At bytes 56⟩
  payloadDigest := arrAt 32 bytes 58

/-- The constructor's list in a string that has the header's constants in place. -/
lemma sessionCrcBytes_eq_slice {bytes : Str} (hlen : 126 ≤ bytes.length)
    (hversion : u8At bytes 4 = sessionVersion) (h1 : arrAt 3 bytes 5 = zeros 3)
    (h2 : arrAt 32 bytes 90 = zeros 32) :
    sessionCrcBytes (arrAt 16 bytes 8) (sessionParamsAt bytes) = slice bytes 4 118 := by
  simp only [sessionCrcBytes, sessionParamsAt]
  rw [← hversion, ← h1, ← h2, ← slice_eq_singleton (by omega), arrAt_toList (by omega),
    arrAt_toList (by omega), u64le_u64At (by omega), u32le_u32At (by omega),
    u32le_u32At (by omega), u32le_u32At (by omega), u32le_u32At (by omega),
    u32le_u32At (by omega), u32le_u32At (by omega), u16le_u16At (by omega),
    arrAt_toList (by omega), arrAt_toList (by omega),
    slice_append_slice bytes 58 32 32, slice_append_slice bytes 56 2 64,
    slice_append_slice bytes 52 4 66, slice_append_slice bytes 48 4 70,
    slice_append_slice bytes 44 4 74, slice_append_slice bytes 40 4 78,
    slice_append_slice bytes 36 4 82, slice_append_slice bytes 32 4 86,
    slice_append_slice bytes 24 8 90, slice_append_slice bytes 8 16 98,
    slice_append_slice bytes 5 3 114, slice_append_slice bytes 4 1 117]

namespace SessionHeader

def new (sessionId : Arr 16) (params : SessionParams) : SessionHeader where
  magic := sessionMagic
  version := sessionVersion
  reserved1 := zeros 3
  sessionId := sessionId
  params := params
  reserved2 := zeros 32
  crc32c := crc32cDigest (sessionCrcBytes sessionId params)
  magic_eq := rfl
  version_eq := rfl
  reserved_eq := ⟨rfl, rfl⟩
  crc32c_eq := rfl

def toVec (h : SessionHeader) : Str :=
  h.magic.toList ++ ([h.version] ++ (h.reserved1.toList ++ (h.sessionId.toList ++
    (u64le h.params.payloadSize ++ (u32le h.params.blockCount ++ (u32le h.params.symbolSize ++
      (u32le h.params.sourceSymbolsPerBlock ++ (u32le h.params.totalSymbolsPerBlock ++
        (u32le h.params.raptorq.z ++ (u32le h.params.raptorq.n ++
          (u16le h.params.raptorq.psi ++ (h.params.payloadDigest.toList ++
            (h.reserved2.toList ++ u32le h.crc32c)))))))))))))

def fromBytes (bytes : Str) : Except SessionError SessionHeader :=
  if hlen : bytes.length < sessionHeaderSize then
    .error (.invalidParameters
      s!"header too short: {bytes.length} bytes (minimum {sessionHeaderSize})")
  else if hmagic : arrAt 4 bytes 0 ≠ sessionMagic then
    .error (.invalidParameters
      s!"invalid magic: expected DSES, got {(arrAt 4 bytes 0).toList}")
  else if hversion : u8At bytes 4 ≠ sessionVersion then
    .error (.invalidParameters s!"unsupported version: {u8At bytes 4}")
  else if h1 : arrAt 3 bytes 5 ≠ zeros 3 then
    .error (.invalidParameters "reserved field must be zero")
  else if h2 : arrAt 32 bytes 90 ≠ zeros 32 then
    .error (.invalidParameters "reserved field 2 must be zero")
  else if hcrc : u32At bytes 122 ≠ crc32cDigest (slice bytes 4 118) then
    .error (.invalidParameters ("CRC32C mismatch: expected " ++
      hexWord (crc32cDigest (slice bytes 4 118)) ++ ", got " ++ hexWord (u32At bytes 122)))
  else
    .ok
      { magic := arrAt 4 bytes 0
        version := u8At bytes 4
        reserved1 := arrAt 3 bytes 5
        sessionId := arrAt 16 bytes 8
        params := sessionParamsAt bytes
        reserved2 := arrAt 32 bytes 90
        crc32c := u32At bytes 122
        magic_eq := not_not.mp hmagic
        version_eq := not_not.mp hversion
        reserved_eq := ⟨not_not.mp h1, not_not.mp h2⟩
        crc32c_eq := by
          rw [sessionCrcBytes_eq_slice (Nat.le_of_not_lt hlen) (not_not.mp hversion)
            (not_not.mp h1) (not_not.mp h2)]
          exact not_not.mp hcrc }

@[simp] lemma length_sessionCrcBytes (sessionId : Arr 16) (params : SessionParams) :
    (sessionCrcBytes sessionId params).length = 118 := by
  simp [sessionCrcBytes]

/-- The serializer's list is the constructor's between the magic and the checksum. -/
lemma toVec_eq (h : SessionHeader) : h.toVec =
    sessionMagic.toList ++ (sessionCrcBytes h.sessionId h.params ++ u32le h.crc32c) := by
  simp only [toVec, sessionCrcBytes, h.magic_eq, h.version_eq, h.reserved_eq.1, h.reserved_eq.2,
    List.append_assoc]

lemma length_toVec (h : SessionHeader) : h.toVec.length = sessionHeaderSize := by
  rw [toVec_eq, List.length_append, List.length_append, length_sessionCrcBytes, length_u32le]
  rfl

lemma slice_toVec_append (h : SessionHeader) (rest : Str) :
    slice (h.toVec ++ rest) 4 118 = sessionCrcBytes h.sessionId h.params := by
  rw [toVec_eq, List.append_assoc, slice_append_right (by decide), List.append_assoc,
    slice_append_left (by rw [length_sessionCrcBytes]; decide)]
  rw [show 4 - sessionMagic.toList.length = 0 from rfl,
    ← length_sessionCrcBytes h.sessionId h.params, slice_zero_length]

lemma reads_toVec_append (h : SessionHeader) (rest : Str) :
    arrAt 4 (h.toVec ++ rest) 0 = sessionMagic ∧ u8At (h.toVec ++ rest) 4 = sessionVersion ∧
      arrAt 3 (h.toVec ++ rest) 5 = zeros 3 ∧ arrAt 16 (h.toVec ++ rest) 8 = h.sessionId ∧
      sessionParamsAt (h.toVec ++ rest) = h.params ∧ arrAt 32 (h.toVec ++ rest) 90 = zeros 32 ∧
      u32At (h.toVec ++ rest) 122 = h.crc32c := by
  simp [toVec_eq, sessionCrcBytes, sessionParamsAt, arrAt_append_right, u8At_append_right,
    u16At_append_right, u32At_append_right, u64At_append_right]

/-- Parsing reads exactly the headers, whatever follows. -/
theorem fromBytes_eq_ok_iff {bytes : Str} {h : SessionHeader} :
    fromBytes bytes = .ok h ↔ ∃ rest, bytes = h.toVec ++ rest := by
  constructor
  · intro e
    unfold fromBytes at e
    split_ifs at e with hlen hmagic hversion h1 h2 hcrc
    cases e
    have hle : 126 ≤ bytes.length := Nat.le_of_not_lt hlen
    refine ⟨bytes.drop 126, ?_⟩
    rw [toVec_eq]
    dsimp only
    rw [sessionCrcBytes_eq_slice hle (not_not.mp hversion) (not_not.mp h1) (not_not.mp h2),
      ← not_not.mp hmagic, arrAt_toList (by omega), u32le_u32At (by omega),
      slice_append_slice bytes 4 118 4, slice_append_slice bytes 0 4 122]
    exact (List.take_append_drop 126 bytes).symm
  · rintro ⟨rest, rfl⟩
    obtain ⟨r1, r2, r3, r4, r5, r6, r7⟩ := reads_toVec_append h rest
    have hlen : ¬(h.toVec ++ rest).length < sessionHeaderSize := by
      rw [List.length_append, length_toVec]
      omega
    have hcrc : crc32cDigest (slice (h.toVec ++ rest) 4 118) = h.crc32c := by
      rw [slice_toVec_append, ← h.crc32c_eq]
    obtain ⟨magic, version, reserved1, sid, params, reserved2, crc, rfl, rfl, ⟨rfl, rfl⟩, hc⟩ := h
    simp only [fromBytes, r1, r2, r3, r4, r5, r6, r7, hcrc, hlen, ne_eq, not_true_eq_false,
      dite_false]

/-- The three lists of fields agree: a new header's checksum is that of the bytes it is checked
over, a written header is read back, and what is read is what the bytes start with. -/
theorem wire_exact :
    (∀ sessionId params,
      (new sessionId params).crc32c = crc32cDigest (slice (new sessionId params).toVec 4 118) ∧
      ∃ h, fromBytes (new sessionId params).toVec = .ok h ∧ h.sessionId = sessionId ∧
        h.params = params) ∧
    ∀ bytes h, fromBytes bytes = .ok h → h.toVec = bytes.take 126 := by
  refine ⟨fun sessionId params => ⟨?_, new sessionId params, ?_, rfl, rfl⟩, fun bytes h e => ?_⟩
  · have hslice := slice_toVec_append (new sessionId params) []
    rw [List.append_nil] at hslice
    rw [hslice]
    rfl
  · exact fromBytes_eq_ok_iff.mpr ⟨[], (List.append_nil _).symm⟩
  · obtain ⟨rest, rfl⟩ := fromBytes_eq_ok_iff.mp e
    exact (List.take_left' (length_toVec h)).symm

/-- The header of a transfer in two blocks. -/
def twoBlocks : SessionHeader := new (zeros 16) ⟨1000, 2, 256, 2, 3, ⟨2, 1, 1⟩, zeros 32⟩

theorem wire_exact_two_blocks : ∃ h, fromBytes (twoBlocks.toVec ++ [7]) = .ok h ∧
    h.toVec = (twoBlocks.toVec ++ [7]).take 126 := by
  have hparse : fromBytes (twoBlocks.toVec ++ [7]) = .ok twoBlocks :=
    fromBytes_eq_ok_iff.mpr ⟨[7], rfl⟩
  exact ⟨_, hparse, wire_exact.2 _ _ hparse⟩

end SessionHeader
end Dhow
