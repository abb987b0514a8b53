import Dhow.Blake3
import Dhow.Crc32c
import Dhow.Errors
import Dhow.Lib.Bitmap

/-!
# Resume files

The index over a receiver's journal (`resume.rs`): a 128-byte header with a checksum and a
digest of its own bytes, and one bitmap entry for each block. A header carries its constants, its
checksum and its digest as proofs, so every header serializes to bytes that parse back to it.
-/

namespace Dhow
open Bytes

/-- ASCII "DHRS". -/
def resumeMagic : Arr 4 := ⟨[0x44, 0x48, 0x52, 0x53], rfl⟩

def resumeVersion : UInt8 := 2
def resumeHeaderSize : ℕ := 128
def crcCoverBytes : ℕ := 92
def integrityCoverBytes : ℕ := 96
def blockEntryHeaderSize : ℕ := 12

structure BlockEntry where
  blockIndex : UInt32
  symbolCount : UInt32
  symbolsHeld : UInt32
  symbolBitmap : Str
  deriving DecidableEq

namespace BlockEntry

def toVec (e : BlockEntry) : Str :=
  u32le e.blockIndex ++ (u32le e.symbolCount ++ (u32le e.symbolsHeld ++ e.symbolBitmap))

/-- The last byte has a bit past the last symbol. -/
def hasStrayBits (symbolCount : UInt32) (symbolBitmap : Str) : Bool :=
  match symbolBitmap.getLast? with
  | none => false
  | some last =>
    let used := symbolCount.toNat % 8
    used ≠ 0 && last.toNat >>> used ≠ 0

/-- The entry at the front of `bytes` and the number of bytes it takes. -/
def fromBytes (bytes : Str) : Except ResumeError (BlockEntry × ℕ) :=
  if bytes.length < blockEntryHeaderSize then
    .error (.truncated blockEntryHeaderSize bytes.length)
  else
    let blockIndex := u32At bytes 0
    let symbolCount := u32At bytes 4
    let symbolsHeld := u32At bytes 8
    if symbolCount < symbolsHeld then .error (.invalidSymbolCount symbolsHeld)
    else
      let bitmapLen := (symbolCount.toNat + 7) / 8
      let stop := blockEntryHeaderSize + bitmapLen
      if bytes.length < stop then .error (.truncated stop bytes.length)
      else
        let symbolBitmap := slice bytes blockEntryHeaderSize bitmapLen
        let set := UInt32.ofNat (Bitmap.popcount symbolBitmap)
        if set ≠ symbolsHeld then .error (.heldCountMismatch symbolsHeld set)
        else if hasStrayBits symbolCount symbolBitmap then .error (.invalidSymbolCount symbolCount)
        else .ok (⟨blockIndex, symbolCount, symbolsHeld, symbolBitmap⟩, stop)

end BlockEntry

/-- The bytes the header's checksum covers. -/
def resumeCover (sessionId : Arr 16) (blockCount : UInt32) (journalBytes : UInt64)
    (journalDigest : Arr 32) : Str :=
  resumeMagic.toList ++ ([resumeVersion] ++ ((zeros 3).toList ++ (sessionId.toList ++
    (u32le blockCount ++ (u64le journalBytes ++ (journalDigest.toList ++ (zeros 24).toList))))))

structure ResumeHeader (b3 : Blake3) where
  magic : Arr 4
  version : UInt8
  reserved1 : Arr 3
  sessionId : Arr 16
  blockCount : UInt32
  journalBytes : UInt64
  journalDigest : Arr 32
  reserved2 : Arr 24
  crc32c : UInt32
  integrityDigest : Arr 32
  magic_eq : magic = resumeMagic
  version_eq : version = resumeVersion
  reserved1_eq : reserved1 = zeros 3
  reserved2_eq : reserved2 = zeros 24
  crc32c_eq : crc32c =
    crc32cDigest (resumeCover sessionId blockCount journalBytes journalDigest)
  integrityDigest_eq : integrityDigest = blake3Digest b3
    (resumeCover sessionId blockCount journalBytes journalDigest ++ u32le crc32c)

/-- The covered bytes of a string that has the header's constants in place. -/
lemma resumeCover_eq_slice {bytes : Str} (hlen : 128 ≤ bytes.length)
    (hmagic : arrAt 4 bytes 0 = resumeMagic) (hversion : u8At bytes 4 = resumeVersion)
    (h1 : arrAt 3 bytes 5 = zeros 3) (h2 : arrAt 24 bytes 68 = zeros 24) :
    resumeCover (arrAt 16 bytes 8) (u32At bytes 24) (u64At bytes 28) (arrAt 32 bytes 36) =
      slice bytes 0 92 := by
  rw [resumeCover, ← hmagic, ← hversion, ← h1, ← h2, arrAt_toList (by omega),
    ← slice_eq_singleton (by omega), arrAt_toList (by omega), arrAt_toList (by omega),
    u32le_u32At (by omega), u64le_u64At (by omega), arrAt_toList (by omega),
    arrAt_toList (by omega), slice_append_slice bytes 36 32 24, slice_append_slice bytes 28 8 56,
    slice_append_slice bytes 24 4 64, slice_append_slice bytes 8 16 68,
    slice_append_slice bytes 5 3 84, slice_append_slice bytes 4 1 87,
    slice_append_slice bytes 0 4 88]

namespace ResumeHeader
variable {b3 : Blake3}

def new (b3 : Blake3) (sessionId : Arr 16) (journalBytes : UInt64) (journalDigest : Arr 32)
    (entries : List BlockEntry) : ResumeHeader b3 :=
  let blockCount := UInt32.ofNat entries.length
  let bytes := resumeCover sessionId blockCount journalBytes journalDigest
  { magic := resumeMagic
    version := resumeVersion
    reserved1 := zeros 3
    sessionId := sessionId
    blockCount := blockCount
    journalBytes := journalBytes
    journalDigest := journalDigest
    reserved2 := zeros 24
    crc32c := crc32cDigest bytes
    integrityDigest := blake3Digest b3 (bytes ++ u32le (crc32cDigest bytes))
    magic_eq := rfl
    version_eq := rfl
    reserved1_eq := rfl
    reserved2_eq := rfl
    crc32c_eq := rfl
    integrityDigest_eq := rfl }

def toVec (h : ResumeHeader b3) : Str :=
  h.magic.toList ++ ([h.version] ++ (h.reserved1.toList ++ (h.sessionId.toList ++
    (u32le h.blockCount ++ (u64le h.journalBytes ++ (h.journalDigest.toList ++
      (h.reserved2.toList ++ (u32le h.crc32c ++ h.integrityDigest.toList))))))))

def fromBytes (b3 : Blake3) (bytes : Str) : Except ResumeError (ResumeHeader b3) :=
  if hlen : bytes.length < resumeHeaderSize then
    .error (.truncated resumeHeaderSize bytes.length)
  else if hmagic : arrAt 4 bytes 0 ≠ resumeMagic then .error (.invalidMagic (arrAt 4 bytes 0))
  else if hversion : u8At bytes 4 ≠ resumeVersion then
    .error (.unsupportedVersion (u8At bytes 4))
  else if h1 : arrAt 3 bytes 5 ≠ zeros 3 then .error (.reservedNotZero 5)
  else if h2 : arrAt 24 bytes 68 ≠ zeros 24 then .error (.reservedNotZero 68)
  else if hcrc : u32At bytes 92 ≠ crc32cDigest (slice bytes 0 crcCoverBytes) then
    .error .integrityCheckFailed
  else if hdigest :
      arrAt 32 bytes 96 ≠ blake3Digest b3 (slice bytes 0 integrityCoverBytes) then
    .error .integrityCheckFailed
  else
    have hle : 128 ≤ bytes.length := Nat.le_of_not_lt hlen
    have hcover := resumeCover_eq_slice hle (not_not.mp hmagic) (not_not.mp hversion)
      (not_not.mp h1) (not_not.mp h2)
    .ok
      { magic := arrAt 4 bytes 0
        version := u8At bytes 4
        reserved1 := arrAt 3 bytes 5
        sessionId := arrAt 16 bytes 8
        blockCount := u32At bytes 24
        journalBytes := u64At bytes 28
        journalDigest := arrAt 32 bytes 36
        reserved2 := arrAt 24 bytes 68
        crc32c := u32At bytes 92
        integrityDigest := arrAt 32 bytes 96
        magic_eq := not_not.mp hmagic
        version_eq := not_not.mp hversion
        reserved1_eq := not_not.mp h1
        reserved2_eq := not_not.mp h2
        crc32c_eq := by rw [hcover]; exact not_not.mp hcrc
        integrityDigest_eq := by
          rw [hcover, u32le_u32At (by omega), slice_append_slice bytes 0 92 4]
          exact not_not.mp hdigest }

end ResumeHeader

structure ResumeFile (b3 : Blake3) where
  header : ResumeHeader b3
  entries : List BlockEntry

namespace ResumeFile
variable {b3 : Blake3}

def build (header : ResumeHeader b3) (entries : List BlockEntry) : ResumeFile b3 :=
  ⟨header, entries⟩

def new (b3 : Blake3) (sessionId : Arr 16) (journalBytes : UInt64) (journalDigest : Arr 32)
    (entries : List BlockEntry) : ResumeFile b3 :=
  build (.new b3 sessionId journalBytes journalDigest entries) entries

def toVec (f : ResumeFile b3) : Str := f.header.toVec ++ f.entries.flatMap BlockEntry.toVec

/-- The entry loop: `left` entries from `index` on, the first at `offset`. -/
def entriesFrom (bytes : Str) : (left index offset : ℕ) →
    Except ResumeError (List BlockEntry × ℕ)
  | 0, _, offset => .ok ([], offset)
  | left + 1, index, offset =>
    match BlockEntry.fromBytes (bytes.drop offset) with
    | .error e => .error e
    | .ok (entry, consumed) =>
      if entry.blockIndex.toNat ≠ index then .error (.blockIndexOutOfRange entry.blockIndex)
      else
        match entriesFrom bytes left (index + 1) (offset + consumed) with
        | .error e => .error e
        | .ok (entries, stop) => .ok (entry :: entries, stop)

def fromBytes (b3 : Blake3) (bytes : Str) : Except ResumeError (ResumeFile b3) :=
  match ResumeHeader.fromBytes b3 bytes with
  | .error e => .error e
  | .ok header =>
    match entriesFrom bytes header.blockCount.toNat 0 resumeHeaderSize with
    | .error e => .error e
    | .ok (entries, offset) =>
      if offset ≠ bytes.length then .error (.trailingBytes (bytes.length - offset))
      else .ok ⟨header, entries⟩

end ResumeFile

/-! ### Round trips -/

/-- What the parser checks of an entry. -/
structure BlockEntry.Wf (e : BlockEntry) : Prop where
  held_le : e.symbolsHeld ≤ e.symbolCount
  length_bitmap : e.symbolBitmap.length = (e.symbolCount.toNat + 7) / 8
  popcount_eq : Bitmap.popcount e.symbolBitmap = e.symbolsHeld.toNat
  bit_eq_false : ∀ i, e.symbolCount.toNat ≤ i → Bitmap.bit e.symbolBitmap i = false

namespace BlockEntry

lemma length_toVec (e : BlockEntry) :
    e.toVec.length = blockEntryHeaderSize + e.symbolBitmap.length := by
  simp [toVec, blockEntryHeaderSize]
  omega

lemma reads_toVec_append (e : BlockEntry) (rest : Str) :
    u32At (e.toVec ++ rest) 0 = e.blockIndex ∧ u32At (e.toVec ++ rest) 4 = e.symbolCount ∧
      u32At (e.toVec ++ rest) 8 = e.symbolsHeld ∧
      slice (e.toVec ++ rest) blockEntryHeaderSize e.symbolBitmap.length = e.symbolBitmap := by
  refine ⟨?_, ?_, ?_, ?_⟩
  · simp [toVec]
  · simp [toVec, u32At_append_right]
  · simp [toVec, u32At_append_right]
  · simp [toVec, blockEntryHeaderSize, slice_append_right, slice_append_left, slice_zero_length]

lemma Wf.hasStrayBits_eq_false {e : BlockEntry} (h : e.Wf) :
    hasStrayBits e.symbolCount e.symbolBitmap = false := by
  unfold hasStrayBits
  cases hlast : e.symbolBitmap.getLast? with
  | none => rfl
  | some last =>
    by_cases hn : e.symbolCount.toNat % 8 = 0
    · simp [hn]
    · have hz := Bitmap.getLast_shiftRight_eq_zero h.length_bitmap h.bit_eq_false hn hlast
      simp [hz]

lemma Wf.fromBytes_toVec_append {e : BlockEntry} (h : e.Wf) (rest : Str) :
    fromBytes (e.toVec ++ rest) = .ok (e, e.toVec.length) := by
  obtain ⟨r1, r2, r3, r4⟩ := reads_toVec_append e rest
  have hlen : (e.toVec ++ rest).length =
      blockEntryHeaderSize + (e.symbolCount.toNat + 7) / 8 + rest.length := by
    rw [List.length_append, length_toVec, h.length_bitmap]
  rw [h.length_bitmap] at r4
  have hset : UInt32.ofNat (Bitmap.popcount e.symbolBitmap) = e.symbolsHeld := by
    rw [h.popcount_eq, UInt32.ofNat_toNat]
  simp only [fromBytes, r1, r2, r3, r4, hset, h.hasStrayBits_eq_false]
  rw [if_neg (by omega), if_neg (UInt32.not_lt.mpr h.held_le), if_neg (by omega), if_neg (by simp),
    if_neg (by simp), length_toVec, h.length_bitmap]

end BlockEntry

namespace ResumeHeader
variable {b3 : Blake3}

@[simp] lemma length_toVec (h : ResumeHeader b3) : h.toVec.length = resumeHeaderSize := by
  simp [toVec, resumeHeaderSize]

lemma reads_toVec_append (h : ResumeHeader b3) (rest : Str) :
    arrAt 4 (h.toVec ++ rest) 0 = h.magic ∧ u8At (h.toVec ++ rest) 4 = h.version ∧
      arrAt 3 (h.toVec ++ rest) 5 = h.reserved1 ∧ arrAt 16 (h.toVec ++ rest) 8 = h.sessionId ∧
      u32At (h.toVec ++ rest) 24 = h.blockCount ∧ u64At (h.toVec ++ rest) 28 = h.journalBytes ∧
      arrAt 32 (h.toVec ++ rest) 36 = h.journalDigest ∧
      arrAt 24 (h.toVec ++ rest) 68 = h.reserved2 ∧ u32At (h.toVec ++ rest) 92 = h.crc32c ∧
      arrAt 32 (h.toVec ++ rest) 96 = h.integrityDigest := by
  simp [toVec, arrAt_append_right, u8At_append_right, u32At_append_right, u64At_append_right]

lemma fromBytes_toVec_append (h : ResumeHeader b3) (rest : Str) :
    fromBytes b3 (h.toVec ++ rest) = .ok h := by
  obtain ⟨r1, r2, r3, r4, r5, r6, r7, r8, r9, r10⟩ := reads_toVec_append h rest
  have hlen : 128 ≤ (h.toVec ++ rest).length := by
    simp only [List.length_append, length_toVec, resumeHeaderSize]
    omega
  have hcover := resumeCover_eq_slice hlen (r1.trans h.magic_eq) (r2.trans h.version_eq)
    (r3.trans h.reserved1_eq) (r8.trans h.reserved2_eq)
  have hcrc : crc32cDigest (slice (h.toVec ++ rest) 0 crcCoverBytes) = h.crc32c := by
    rw [crcCoverBytes, ← hcover, r4, r5, r6, r7, ← h.crc32c_eq]
  have hdigest : blake3Digest b3 (slice (h.toVec ++ rest) 0 integrityCoverBytes) =
      h.integrityDigest := by
    rw [integrityCoverBytes, ← slice_append_slice _ 0 92 4, ← hcover, ← u32le_u32At (by omega),
      r4, r5, r6, r7, r9, ← h.integrityDigest_eq]
  have hlen' : ¬(h.toVec ++ rest).length < resumeHeaderSize := Nat.not_lt.mpr hlen
  obtain ⟨magic, version, reserved1, sid, bc, jb, jd, reserved2, crc, digest,
    rfl, rfl, rfl, rfl, hc, hd⟩ := h
  simp only [fromBytes, r1, r2, r3, r4, r5, r6, r7, r8, r9, r10, hlen', hcrc, hdigest, ne_eq,
    not_true_eq_false, dite_false]

end ResumeHeader

namespace ResumeFile
variable {b3 : Blake3}

lemma entriesFrom_append (pre : Str) (entries : List BlockEntry) (index : ℕ)
    (hwf : ∀ e ∈ entries, e.Wf)
    (hidx : ∀ (j : ℕ) (e : BlockEntry), entries[j]? = some e → e.blockIndex.toNat = index + j) (rest : Str) :
    entriesFrom (pre ++ (entries.flatMap BlockEntry.toVec ++ rest)) entries.length index
        pre.length =
      .ok (entries, pre.length + (entries.flatMap BlockEntry.toVec).length) := by
  induction entries generalizing pre index with
  | nil => simp [entriesFrom]
  | cons e entries ih =>
    have he := (hwf e (by simp)).fromBytes_toVec_append
      (entries.flatMap BlockEntry.toVec ++ rest)
    have hi : e.blockIndex.toNat = index := by simpa using hidx 0 e rfl
    have hrec := ih (pre ++ e.toVec) (index + 1) (fun x hx => hwf x (by simp [hx]))
      (fun j x hx => by rw [hidx (j + 1) x (by simpa using hx)]; omega)
    rw [List.append_assoc, List.length_append] at hrec
    rw [List.length_cons, List.flatMap_cons, List.append_assoc, entriesFrom,
      List.drop_left, he]
    simp only [hi, ne_eq, not_true_eq_false, if_false, hrec, List.length_append, Nat.add_assoc]

/-- A file whose entries are well formed and in order parses back to itself. -/
theorem fromBytes_toVec (f : ResumeFile b3) (hcount : f.header.blockCount.toNat = f.entries.length)
    (hwf : ∀ e ∈ f.entries, e.Wf)
    (hidx : ∀ (j : ℕ) (e : BlockEntry), f.entries[j]? = some e → e.blockIndex.toNat = j) :
    fromBytes b3 f.toVec = .ok f := by
  have hh : ResumeHeader.fromBytes b3 f.toVec = .ok f.header :=
    ResumeHeader.fromBytes_toVec_append f.header _
  have he := entriesFrom_append f.header.toVec f.entries 0 hwf (by simpa using hidx) []
  rw [List.append_nil, ResumeHeader.length_toVec] at he
  change entriesFrom f.toVec _ _ _ = _ at he
  have hstop : resumeHeaderSize + (f.entries.flatMap BlockEntry.toVec).length = f.toVec.length := by
    simp [toVec]
  simp only [fromBytes, hh, hcount, he, hstop, ne_eq, not_true_eq_false, if_false]

lemma toVec_ne_nil (f : ResumeFile b3) : f.toVec ≠ [] := by
  intro hnil
  have hlen := congrArg List.length hnil
  simp [toVec, resumeHeaderSize] at hlen

end ResumeFile
end Dhow
