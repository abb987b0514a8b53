import Dhow.Crc32c
import Dhow.Lib.Utf8
import Dhow.Session

/-!
# Manifests

The signed description of a transfer (`manifest.rs` of the codec): a 228-byte header with the
session parameters, a checksum and a signature, and an entry for each file. A header carries its
constants and its checksum as proofs. Parsing is exact: a parsed manifest serializes to the bytes
it was parsed from.
-/

namespace Dhow
open Bytes

/-- ASCII "DHMF". -/
def manifestMagic : Arr 4 := ⟨[0x44, 0x48, 0x4D, 0x46], rfl⟩

def manifestVersion : UInt8 := 2
def manifestHeaderSize : ℕ := 228
def crcOffset : ℕ := 160
def maxNameLen : ℕ := 4096
def maxFileCount : UInt32 := 1000000
def signatureOffset : ℕ := 164

/-- The name stays inside the directory it is joined to. -/
def validateName (name : String) : Except ManifestError Unit :=
  let chars := name.toList
  if chars = [] then .error (.pathTraversal name)
  else if maxNameLen < (asBytes name).length then
    .error (.fileNameTooLong (asBytes name).length)
  else if '\x00' ∈ chars ∨ '\\' ∈ chars then .error (.pathTraversal name)
  else if chars.head? = some '/' ∨ chars[1]? = some ':' then .error (.pathTraversal name)
  else if ['.', '.'] ∈ chars.splitOn '/' then .error (.pathTraversal name)
  else .ok ()

def entryFlagExecutable : UInt8 := 1
def entryFlagKnown : UInt8 := entryFlagExecutable
def entryFixedLen : ℕ := 43

/-- A byte as `0x` and two digits. -/
def hexByte (b : UInt8) : String :=
  "0x" ++ String.ofList [Nat.digitChar (b.toNat / 16), Nat.digitChar (b.toNat % 16)]

structure FileEntry where
  name : String
  size : UInt64
  digest : Arr 32
  executable : Bool
  deriving DecidableEq

namespace FileEntry

def flags (e : FileEntry) : UInt8 := if e.executable then entryFlagExecutable else 0

def toVec (e : FileEntry) : Str :=
  u16le (UInt16.ofNat (asBytes e.name).length) ++ (asBytes e.name ++ (u64le e.size ++
    (e.digest.toList ++ [e.flags])))

/-- The entry at the front of `bytes` and the number of bytes it takes. -/
def fromBytes (bytes : Str) : Except ManifestError (FileEntry × ℕ) :=
  if bytes.length < 2 then .error (.truncated 2 bytes.length)
  else
    let nameLen := (u16At bytes 0).toNat
    if maxNameLen < nameLen then .error (.fileNameTooLong nameLen)
    else
      let totalEntryLen := entryFixedLen + nameLen
      if bytes.length < totalEntryLen then .error (.truncated totalEntryLen bytes.length)
      else
        match fromUtf8 (slice bytes 2 nameLen) with
        | none => .error (.malformed "file name contains invalid UTF-8")
        | some name =>
          match validateName name with
          | .error e => .error e
          | .ok () =>
            let flags := u8At bytes (42 + nameLen)
            if flags &&& ~~~entryFlagKnown ≠ 0 then
              .error (.malformed (s!"file entry {name} sets undefined flag bits " ++
                hexByte flags))
            else
              .ok (⟨name, u64At bytes (2 + nameLen), arrAt 32 bytes (10 + nameLen),
                flags &&& entryFlagExecutable ≠ 0⟩, totalEntryLen)

end FileEntry

/-- The bytes the header's checksum covers. -/
def crcCoveredBytes (sessionId : Arr 16) (fileCount : UInt32) (totalSize : UInt64)
    (salt : Arr 32) (nonce : Arr 24) (params : SessionParams) : Str :=
  manifestMagic.toList ++ ([manifestVersion] ++ ((zeros 3).toList ++ (sessionId.toList ++
    (u32le fileCount ++ (u64le totalSize ++ (params.payloadDigest.toList ++ (salt.toList ++
      (nonce.toList ++ (u64le params.payloadSize ++ (u32le params.blockCount ++
        (u32le params.symbolSize ++ (u32le params.sourceSymbolsPerBlock ++
          (u32le params.totalSymbolsPerBlock ++ (u32le params.raptorq.z ++
            (u32le params.raptorq.n ++ (u16le params.raptorq.psi ++ (zeros 2).toList))))))))))))))))

structure ManifestHeader where
  magic : Arr 4
  version : UInt8
  sessionId : Arr 16
  fileCount : UInt32
  totalSize : UInt64
  salt : Arr 32
  nonce : Arr 24
  params : SessionParams
  crc32c : UInt32
  signature : Arr 64
  magic_eq : magic = manifestMagic
  version_eq : version = manifestVersion
  crc32c_eq : crc32c =
    crc32cDigest (crcCoveredBytes sessionId fileCount totalSize salt nonce params)

/-- The parameters as a header stores them. -/
def paramsAt (bytes : Str) : SessionParams where
  payloadSize := u64At bytes 124
  blockCount := u32At bytes 132
  symbolSize := u32At bytes 136
  sourceSymbolsPerBlock := u32At bytes 140
  totalSymbolsPerBlock := u32At bytes 144
  raptorq := ⟨u32At bytes 148, u32At bytes 152, u16At bytes 156⟩
  payloadDigest := arrAt 32 bytes 36

/-- The covered bytes of a string that has the header's constants in place. -/
lemma crcCoveredBytes_eq_slice {bytes : Str} (hlen : 228 ≤ bytes.length)
    (hmagic : arrAt 4 bytes 0 = manifestMagic) (hversion : u8At bytes 4 = manifestVersion)
    (h1 : arrAt 3 bytes 5 = zeros 3) (h2 : arrAt 2 bytes 158 = zeros 2) :
    crcCoveredBytes (arrAt 16 bytes 8) (u32At bytes 24) (u64At bytes 28) (arrAt 32 bytes 68)
      (arrAt 24 bytes 100) (paramsAt bytes) = slice bytes 0 160 := by
  simp only [crcCoveredBytes, paramsAt]
  rw [← hmagic, ← hversion, ← h1, ← h2, arrAt_toList (by omega),
    ← slice_eq_singleton (by omega), arrAt_toList (by omega), arrAt_toList (by omega),
    u32le_u32At (by omega), u64le_u64At (by omega), arrAt_toList (by omega),
    arrAt_toList (by omega), arrAt_toList (by omega), u64le_u64At (by omega),
    u32le_u32At (by omega), u32le_u32At (by omega), u32le_u32At (by omega),
    u32le_u32At (by omega), u32le_u32At (by omega), u32le_u32At (by omega),
    u16le_u16At (by omega), arrAt_toList (by omega),
    slice_append_slice bytes 156 2 2, slice_append_slice bytes 152 4 4,
    slice_append_slice bytes 148 4 8, slice_append_slice bytes 144 4 12,
    slice_append_slice bytes 140 4 16, slice_append_slice bytes 136 4 20,
    slice_append_slice bytes 132 4 24, slice_append_slice bytes 124 8 28,
    slice_append_slice bytes 100 24 36, slice_append_slice bytes 68 32 60,
    slice_append_slice bytes 36 32 92, slice_append_slice bytes 28 8 124,
    slice_append_slice bytes 24 4 132, slice_append_slice bytes 8 16 136,
    slice_append_slice bytes 5 3 152, slice_append_slice bytes 4 1 155,
    slice_append_slice bytes 0 4 156]

namespace ManifestHeader

def new (sessionId : Arr 16) (entries : List FileEntry) (totalSize : UInt64) (salt : Arr 32)
    (nonce : Arr 24) (params : SessionParams) : ManifestHeader where
  magic := manifestMagic
  version := manifestVersion
  sessionId := sessionId
  fileCount := UInt32.ofNat entries.length
  totalSize := totalSize
  salt := salt
  nonce := nonce
  params := params
  crc32c := crc32cDigest (crcCoveredBytes sessionId (UInt32.ofNat entries.length) totalSize salt
    nonce params)
  signature := zeros 64
  magic_eq := rfl
  version_eq := rfl
  crc32c_eq := rfl

def setSignature (h : ManifestHeader) (signature : Arr 64) : ManifestHeader :=
  { h with signature := signature }

def toVec (h : ManifestHeader) : Str :=
  crcCoveredBytes h.sessionId h.fileCount h.totalSize h.salt h.nonce h.params ++
    (u32le h.crc32c ++ h.signature.toList)

/-- Magic and version come before the length, which depends on the version. -/
def fromBytes (bytes : Str) : Except ManifestError ManifestHeader :=
  if bytes.length < 5 then .error (.truncated manifestHeaderSize bytes.length)
  else if hmagic : arrAt 4 bytes 0 ≠ manifestMagic then .error (.invalidMagic (arrAt 4 bytes 0))
  else if hversion : u8At bytes 4 ≠ manifestVersion then
    .error (.unsupportedVersion (u8At bytes 4))
  else if hlen : bytes.length < manifestHeaderSize then
    .error (.truncated manifestHeaderSize bytes.length)
  else if h1 : arrAt 3 bytes 5 ≠ zeros 3 then
    .error (.malformed "reserved bytes at offset 5 must be zero")
  else if h2 : arrAt 2 bytes 158 ≠ zeros 2 then
    .error (.malformed "reserved bytes at offset 158 must be zero")
  else if hcrc : u32At bytes 160 ≠ crc32cDigest (slice bytes 0 crcOffset) then
    .error .crcMismatch
  else
    .ok
      { magic := arrAt 4 bytes 0
        version := u8At bytes 4
        sessionId := arrAt 16 bytes 8
        fileCount := u32At bytes 24
        totalSize := u64At bytes 28
        salt := arrAt 32 bytes 68
        nonce := arrAt 24 bytes 100
        params := paramsAt bytes
        crc32c := u32At bytes 160
        signature := arrAt 64 bytes 164
        magic_eq := not_not.mp hmagic
        version_eq := not_not.mp hversion
        crc32c_eq := by
          rw [crcCoveredBytes_eq_slice (Nat.le_of_not_lt hlen) (not_not.mp hmagic)
            (not_not.mp hversion) (not_not.mp h1) (not_not.mp h2)]
          exact not_not.mp hcrc }

end ManifestHeader

structure Manifest where
  header : ManifestHeader
  entries : List FileEntry

/-- The bytes from `start` to `stop` cleared. -/
def fill (bytes : Str) (start stop : ℕ) : Str :=
  bytes.take start ++ (List.replicate (stop - start) 0 ++ bytes.drop stop)

namespace Manifest

def build (header : ManifestHeader) (entries : List FileEntry) (signature : Arr 64) : Manifest :=
  ⟨header.setSignature signature, entries⟩

def toVec (m : Manifest) : Str := m.header.toVec ++ m.entries.flatMap FileEntry.toVec

/-- The entry loop: `left` entries, the first at `offset`. -/
def entriesFrom (bytes : Str) : (left offset : ℕ) → Except ManifestError (List FileEntry × ℕ)
  | 0, offset => .ok ([], offset)
  | left + 1, offset =>
    if bytes.length ≤ offset then .error (.truncated (bytes.length + 1) bytes.length)
    else
      match FileEntry.fromBytes (bytes.drop offset) with
      | .error e => .error e
      | .ok (entry, consumed) =>
        match entriesFrom bytes left (offset + consumed) with
        | .error e => .error e
        | .ok (entries, stop) => .ok (entry :: entries, stop)

def fromBytes (bytes : Str) : Except ManifestError Manifest :=
  match ManifestHeader.fromBytes bytes with
  | .error e => .error e
  | .ok header =>
    if maxFileCount < header.fileCount then .error (.invalidFileCount header.fileCount)
    else
      match entriesFrom bytes header.fileCount.toNat manifestHeaderSize with
      | .error e => .error e
      | .ok (entries, offset) =>
        if offset ≠ bytes.length then
          .error (.malformed
            s!"{bytes.length - offset} trailing bytes after the last file entry")
        else .ok ⟨header, entries⟩

/-- What a signature covers: the manifest with the signature cleared. -/
def signingBytes (m : Manifest) : Str := fill m.toVec signatureOffset manifestHeaderSize

def signingBytesOf (bytes : Str) : Except ManifestError Str :=
  if bytes.length < manifestHeaderSize then .error (.truncated manifestHeaderSize bytes.length)
  else .ok (fill bytes signatureOffset manifestHeaderSize)

end Manifest
/-! ### Parsing is exact -/

lemma flags_eq_of_known {b : UInt8} (h : b &&& ~~~entryFlagKnown = 0) :
    b = if (decide (b &&& entryFlagExecutable ≠ 0)) = true then entryFlagExecutable else 0 := by
  have hall : ∀ n : Fin 256, UInt8.ofNat n &&& ~~~entryFlagKnown = 0 → UInt8.ofNat n =
      if (decide (UInt8.ofNat n &&& entryFlagExecutable ≠ 0)) = true then entryFlagExecutable
      else 0 := by decide +kernel
  have hb := hall ⟨b.toNat, b.toNat_lt⟩
  rw [UInt8.ofNat_toNat] at hb
  exact hb h

lemma length_le_of_validateName {name : String} (h : validateName name = .ok ()) :
    (asBytes name).length ≤ maxNameLen := by
  unfold validateName at h
  dsimp only at h
  split_ifs at h with h1 h2
  exact Nat.le_of_not_lt h2

namespace FileEntry

/-- What the parser checks of an entry. -/
def Wf (e : FileEntry) : Prop := validateName e.name = .ok ()

instance (e : FileEntry) : Decidable e.Wf :=
  inferInstanceAs (Decidable (validateName e.name = .ok ()))

lemma length_toVec (e : FileEntry) : e.toVec.length = entryFixedLen + (asBytes e.name).length := by
  simp [toVec, entryFixedLen]
  omega

lemma Wf.toNat_nameLen {e : FileEntry} (h : e.Wf) :
    (UInt16.ofNat (asBytes e.name).length).toNat = (asBytes e.name).length := by
  have hle := length_le_of_validateName h
  have hlt : (asBytes e.name).length < 2 ^ 16 := by
    unfold maxNameLen at hle
    omega
  exact UInt16.toNat_ofNat_of_lt' hlt

lemma reads_toVec_append (e : FileEntry) (rest : Str) :
    u16At (e.toVec ++ rest) 0 = UInt16.ofNat (asBytes e.name).length ∧
      slice (e.toVec ++ rest) 2 (asBytes e.name).length = asBytes e.name ∧
      u64At (e.toVec ++ rest) (2 + (asBytes e.name).length) = e.size ∧
      arrAt 32 (e.toVec ++ rest) (10 + (asBytes e.name).length) = e.digest ∧
      u8At (e.toVec ++ rest) (42 + (asBytes e.name).length) = e.flags := by
  refine ⟨?_, ?_, ?_, ?_, ?_⟩
  · simp [toVec]
  · simp [toVec, slice_append_right, slice_append_left, slice_zero_length]
  · simp [toVec, u64At_append_right]
  · have hoff : 10 + (asBytes e.name).length - 2 - (asBytes e.name).length - 8 = 0 := by omega
    simp only [toVec, List.append_assoc]
    rw [arrAt_append_right (by simp; omega), length_u16le, arrAt_append_right (by omega),
      arrAt_append_right (by simp; omega), length_u64le, hoff, arrAt_append_zero]
  · have hoff : 42 + (asBytes e.name).length - 2 - (asBytes e.name).length - 8 - 32 = 0 := by
      omega
    simp only [toVec, List.append_assoc]
    rw [u8At_append_right (by simp; omega), length_u16le, u8At_append_right (by omega),
      u8At_append_right (by simp; omega), length_u64le,
      u8At_append_right (by simp only [List.Vector.toList_length]; omega),
      List.Vector.toList_length, hoff]
    rfl

lemma flags_known (e : FileEntry) : e.flags &&& ~~~entryFlagKnown = 0 ∧
    decide (e.flags &&& entryFlagExecutable ≠ 0) = e.executable := by
  unfold flags
  cases e.executable <;> decide

lemma Wf.fromBytes_toVec_append {e : FileEntry} (h : e.Wf) (rest : Str) :
    fromBytes (e.toVec ++ rest) = .ok (e, e.toVec.length) := by
  obtain ⟨r1, r2, r3, r4, r5⟩ := reads_toVec_append e rest
  have hle := length_le_of_validateName h
  have hlen : (e.toVec ++ rest).length =
      entryFixedLen + (asBytes e.name).length + rest.length := by
    rw [List.length_append, length_toVec]
  have hname : validateName e.name = .ok () := h
  obtain ⟨hk, hx⟩ := e.flags_known
  have h2 : ¬(e.toVec ++ rest).length < 2 := by rw [hlen, entryFixedLen]; omega
  have h3 : ¬(e.toVec ++ rest).length < entryFixedLen + (asBytes e.name).length := by
    rw [hlen]
    omega
  simp only [fromBytes, r1, h.toNat_nameLen, r2, r3, r4, r5, fromUtf8_asBytes, hname, hk, hx, h2,
    h3, Nat.not_lt.mpr hle, ne_eq, not_true_eq_false, if_false, length_toVec]

/-- A parsed entry is well formed and serializes to the bytes it was parsed from. -/
lemma of_fromBytes_eq_ok {bytes : Str} {e : FileEntry} {n : ℕ}
    (h : fromBytes bytes = .ok (e, n)) :
    e.Wf ∧ n = e.toVec.length ∧ bytes = e.toVec ++ bytes.drop n := by
  unfold fromBytes at h
  cases hutf : fromUtf8 (slice bytes 2 (u16At bytes 0).toNat) with
  | none =>
    simp only [hutf] at h
    split_ifs at h
  | some name =>
    cases hv : validateName name with
    | error err =>
      simp only [hutf, hv] at h
      split_ifs at h
    | ok u =>
      simp only [hutf, hv] at h
      split_ifs at h with h2 hmax hlen hflags
      obtain ⟨rfl, rfl⟩ := Prod.mk.inj (Except.ok.inj h)
      have hlen' : entryFixedLen + (u16At bytes 0).toNat ≤ bytes.length := Nat.le_of_not_lt hlen
      unfold entryFixedLen at hlen'
      have hname := fromUtf8_eq_some_iff.mp hutf
      have hnl : (asBytes name).length = (u16At bytes 0).toNat := by
        rw [hname]
        exact length_slice_of_le (by omega)
      refine ⟨hv, ?_, ?_⟩
      · rw [length_toVec, hnl]
      · have hfl := flags_eq_of_known (not_not.mp hflags)
        simp only [toVec, flags]
        rw [← hfl, hnl, UInt16.ofNat_toNat, hname, u16le_u16At (by omega),
          u64le_u64At (by omega), arrAt_toList (by omega), ← slice_eq_singleton (by omega)]
        generalize (u16At bytes 0).toNat = k at *
        rw [show 42 + k = 10 + k + 32 by omega, slice_append_slice bytes (10 + k) 32 1,
          show 10 + k = 2 + k + 8 by omega, slice_append_slice bytes (2 + k) 8 33,
          slice_append_slice bytes 2 k (8 + 33), slice_append_slice bytes 0 2 _, entryFixedLen,
          show 2 + (k + (8 + 33)) = 43 + k by omega]
        exact (List.take_append_drop (43 + k) bytes).symm

end FileEntry

namespace ManifestHeader

@[simp] lemma length_toVec (h : ManifestHeader) : h.toVec.length = manifestHeaderSize := by
  simp [toVec, crcCoveredBytes, manifestHeaderSize]

lemma reads_toVec_append (h : ManifestHeader) (rest : Str) :
    arrAt 4 (h.toVec ++ rest) 0 = manifestMagic ∧ u8At (h.toVec ++ rest) 4 = manifestVersion ∧
      arrAt 3 (h.toVec ++ rest) 5 = zeros 3 ∧ arrAt 16 (h.toVec ++ rest) 8 = h.sessionId ∧
      u32At (h.toVec ++ rest) 24 = h.fileCount ∧ u64At (h.toVec ++ rest) 28 = h.totalSize ∧
      arrAt 32 (h.toVec ++ rest) 68 = h.salt ∧ arrAt 24 (h.toVec ++ rest) 100 = h.nonce ∧
      paramsAt (h.toVec ++ rest) = h.params ∧ arrAt 2 (h.toVec ++ rest) 158 = zeros 2 ∧
      u32At (h.toVec ++ rest) 160 = h.crc32c ∧ arrAt 64 (h.toVec ++ rest) 164 = h.signature := by
  simp [toVec, crcCoveredBytes, paramsAt, arrAt_append_right, u8At_append_right,
    u16At_append_right, u32At_append_right, u64At_append_right]

/-- Parsing reads exactly the headers, whatever follows. -/
theorem fromBytes_eq_ok_iff {bytes : Str} {h : ManifestHeader} :
    fromBytes bytes = .ok h ↔ ∃ rest, bytes = h.toVec ++ rest := by
  constructor
  · intro e
    unfold fromBytes at e
    split_ifs at e with h5 hmagic hversion hlen h1 h2 hcrc
    cases e
    have hle : 228 ≤ bytes.length := Nat.le_of_not_lt hlen
    refine ⟨bytes.drop 228, ?_⟩
    simp only [toVec]
    rw [crcCoveredBytes_eq_slice hle (not_not.mp hmagic) (not_not.mp hversion)
      (not_not.mp h1) (not_not.mp h2), u32le_u32At (by omega), arrAt_toList (by omega),
      slice_append_slice bytes 160 4 64, slice_append_slice bytes 0 160 68]
    exact (List.take_append_drop 228 bytes).symm
  · rintro ⟨rest, rfl⟩
    obtain ⟨r1, r2, r3, r4, r5, r6, r7, r8, r9, r10, r11, r12⟩ := reads_toVec_append h rest
    have hlen : 228 ≤ (h.toVec ++ rest).length := by
      simp only [List.length_append, length_toVec, manifestHeaderSize]
      omega
    have hcover := crcCoveredBytes_eq_slice hlen r1 r2 r3 r10
    have hcrc : crc32cDigest (slice (h.toVec ++ rest) 0 crcOffset) = h.crc32c := by
      rw [crcOffset, ← hcover, r4, r5, r6, r7, r8, r9, ← h.crc32c_eq]
    have h5 : ¬(h.toVec ++ rest).length < 5 := by omega
    have hsize : ¬(h.toVec ++ rest).length < manifestHeaderSize := Nat.not_lt.mpr hlen
    obtain ⟨magic, version, sid, count, total, salt, nonce, params, crc, signature,
      rfl, rfl, hc⟩ := h
    simp only [fromBytes, r1, r2, r3, r4, r5, r6, r7, r8, r9, r10, r11, r12, hcrc, h5, hsize,
      ne_eq, not_true_eq_false, dite_false, if_false]

end ManifestHeader

namespace Manifest

/-- What the parser checks of a manifest beyond its header. -/
structure Wf (m : Manifest) : Prop where
  fileCount_le : m.header.fileCount ≤ maxFileCount
  fileCount_eq : m.header.fileCount.toNat = m.entries.length
  entries_wf : ∀ e ∈ m.entries, e.Wf

lemma entriesFrom_append (pre : Str) (entries : List FileEntry) (hwf : ∀ e ∈ entries, e.Wf)
    (rest : Str) :
    entriesFrom (pre ++ (entries.flatMap FileEntry.toVec ++ rest)) entries.length pre.length =
      .ok (entries, pre.length + (entries.flatMap FileEntry.toVec).length) := by
  induction entries generalizing pre with
  | nil => simp [entriesFrom]
  | cons e entries ih =>
    have he := (hwf e (by simp)).fromBytes_toVec_append
      (entries.flatMap FileEntry.toVec ++ rest)
    have hrec := ih (pre ++ e.toVec) fun x hx => hwf x (by simp [hx])
    rw [List.append_assoc, List.length_append] at hrec
    have hlt : ¬(pre ++ (e.toVec ++ (entries.flatMap FileEntry.toVec ++ rest))).length ≤
        pre.length := by
      simp only [List.length_append, FileEntry.length_toVec, entryFixedLen]
      omega
    rw [List.length_cons, List.flatMap_cons, List.append_assoc, entriesFrom, if_neg hlt,
      List.drop_left, he]
    simp only [hrec, List.length_append, Nat.add_assoc]

lemma of_entriesFrom_eq_ok {bytes : Str} {left offset stop : ℕ} {entries : List FileEntry}
    (h : entriesFrom bytes left offset = .ok (entries, stop)) :
    entries.length = left ∧ (∀ e ∈ entries, e.Wf) ∧
      bytes.drop offset = entries.flatMap FileEntry.toVec ++ bytes.drop stop := by
  induction left generalizing offset entries with
  | zero =>
    cases h
    simp
  | succ left ih =>
    rw [entriesFrom] at h
    split_ifs at h with hlt
    cases he : FileEntry.fromBytes (bytes.drop offset) with
    | error err => simp [he] at h
    | ok p =>
      obtain ⟨e, consumed⟩ := p
      simp only [he] at h
      cases hr : entriesFrom bytes left (offset + consumed) with
      | error err => simp [hr] at h
      | ok q =>
        obtain ⟨tail, stop'⟩ := q
        simp only [hr] at h
        obtain ⟨rfl, rfl⟩ := Prod.mk.inj (Except.ok.inj h)
        obtain ⟨hlen, hwf, hdrop⟩ := ih hr
        obtain ⟨hewf, -, hbytes⟩ := FileEntry.of_fromBytes_eq_ok he
        refine ⟨by rw [List.length_cons, hlen], ?_, ?_⟩
        · intro x hx
          rcases List.mem_cons.mp hx with rfl | hx
          · exact hewf
          · exact hwf x hx
        · rw [hbytes, List.drop_drop, hdrop, List.flatMap_cons, List.append_assoc]

/-- Parsing accepts exactly the serializations of well-formed manifests. -/
theorem fromBytes_eq_ok_iff {bytes : Str} {m : Manifest} :
    fromBytes bytes = .ok m ↔ m.Wf ∧ bytes = m.toVec := by
  constructor
  · intro h
    unfold fromBytes at h
    cases hh : ManifestHeader.fromBytes bytes with
    | error e => simp [hh] at h
    | ok header =>
      simp only [hh] at h
      split_ifs at h with hmax
      cases he : entriesFrom bytes header.fileCount.toNat manifestHeaderSize with
      | error e => simp [he] at h
      | ok p =>
        obtain ⟨entries, stop⟩ := p
        simp only [he] at h
        split_ifs at h with hstop
        cases h
        obtain ⟨hlen, hwf, hdrop⟩ := of_entriesFrom_eq_ok he
        obtain ⟨rest, hrest⟩ := ManifestHeader.fromBytes_eq_ok_iff.mp hh
        refine ⟨⟨UInt32.not_lt.mp hmax, hlen.symm, hwf⟩, ?_⟩
        rw [not_not.mp hstop, List.drop_length, List.append_nil, hrest,
          ← ManifestHeader.length_toVec header, List.drop_left] at hdrop
        rw [hrest, hdrop, toVec]
  · rintro ⟨hwf, rfl⟩
    have hh : ManifestHeader.fromBytes m.toVec = .ok m.header :=
      ManifestHeader.fromBytes_eq_ok_iff.mpr ⟨_, rfl⟩
    have he := entriesFrom_append m.header.toVec m.entries hwf.entries_wf []
    rw [List.append_nil, ManifestHeader.length_toVec] at he
    change entriesFrom m.toVec _ _ = _ at he
    have hstop : manifestHeaderSize + (m.entries.flatMap FileEntry.toVec).length =
        m.toVec.length := by simp [toVec]
    simp only [fromBytes, hh, hwf.fileCount_eq, he, hstop, UInt32.not_lt.mpr hwf.fileCount_le,
      ne_eq, not_true_eq_false, if_false]

/-- The codec is a bijection between the manifests a sender builds and the bytes that parse. -/
theorem codec_exact :
    (∀ sessionId entries totalSize salt nonce params signature,
      entries.length ≤ maxFileCount.toNat → (∀ e ∈ entries, validateName e.name = .ok ()) →
      let m := build (.new sessionId entries totalSize salt nonce params) entries signature
      fromBytes m.toVec = .ok m) ∧
    ∀ bytes m, fromBytes bytes = .ok m → m.toVec = bytes := by
  constructor
  · intro sessionId entries totalSize salt nonce params signature hcount hnames
    have hlt : entries.length < 2 ^ 32 := hcount.trans_lt (by decide)
    apply fromBytes_eq_ok_iff.mpr
    refine ⟨⟨?_, UInt32.toNat_ofNat_of_lt' hlt, hnames⟩, rfl⟩
    apply UInt32.le_iff_toNat_le.mpr
    exact (UInt32.toNat_ofNat_of_lt' hlt).le.trans hcount
  · intro bytes m h
    exact (fromBytes_eq_ok_iff.mp h).2.symm

/-- A manifest of two files, one of them executable. -/
def twoFiles : Manifest :=
  let entries := [⟨"bin/a", 2, zeros 32, true⟩, ⟨"b", 1, zeros 32, false⟩]
  build (.new (zeros 16) entries 3 (zeros 32) (zeros 24)
    ⟨3, 1, 64, 1, 5, ⟨1, 1, 1⟩, zeros 32⟩) entries (zeros 64)

theorem codec_exact_two_files :
    ∃ m, fromBytes twoFiles.toVec = .ok m ∧ m.toVec = twoFiles.toVec := by
  have h := codec_exact.1 (zeros 16) twoFiles.entries 3 (zeros 32) (zeros 24)
    ⟨3, 1, 64, 1, 5, ⟨1, 1, 1⟩, zeros 32⟩ (zeros 64) (by decide) (by decide +kernel)
  exact ⟨_, h, codec_exact.2 _ _ h⟩

end Manifest
end Dhow
