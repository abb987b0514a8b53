import Dhow.KeyFile
import Dhow.ManifestVerify

/-!
# Loading a secret key

How `key.rs` loads what it has saved: nobody but the owner may have a permission on the file, and
every field of it is checked before the key material is used.
-/

namespace Dhow
open Bytes

/-- The total size of a secret key file. -/
def keyFileSize : ℕ := 72

/-- Where the checksum begins. -/
def checksumOffset : ℕ := 40

def KeyKind.fromU8 (value : UInt8) : Option KeyKind :=
  if value = 1 then some .identity else if value = 2 then some .operator else none

inductive KeyLoadError
  | cannotStat
  | cannotRead
  | insecurePermissions (perms : UInt32)
  | truncated (expected actual : ℕ)
  | invalidMagic (expected got : Arr 4)
  | unsupportedVersion (version : UInt8)
  | unknownKind (value : UInt8)
  | reservedNotZero
  | checksumMismatch
  | expectedIdentity
  | expectedOperator
  | notAPublicKey
  deriving DecidableEq

/-- Every field is checked before the key material is returned. -/
def decodeKeyFile (b3 : Blake3) (bytes : Str) : Except KeyLoadError (KeyKind × Arr 32) :=
  if bytes.length ≠ keyFileSize then .error (.truncated keyFileSize bytes.length)
  else if arrAt 4 bytes 0 ≠ keyMagic then .error (.invalidMagic keyMagic (arrAt 4 bytes 0))
  else if u8At bytes 4 ≠ keyVersion then .error (.unsupportedVersion (u8At bytes 4))
  else
    match KeyKind.fromU8 (u8At bytes 5) with
    | none => .error (.unknownKind (u8At bytes 5))
    | some kind =>
      if arrAt 2 bytes 6 ≠ zeros 2 then .error .reservedNotZero
      else if (blake3Digest b3 (bytes.take checksumOffset)).toList ≠ bytes.drop checksumOffset then
        .error .checksumMismatch
      else .ok (kind, arrAt 32 bytes keyHeaderLen)

/-- How the `ed25519_dalek` crate turns keys into bytes and back. -/
structure KeyCodec (ed : Ed25519) where
  fromSeed : Arr 32 → ed.IdentityKey
  seedOf : ed.IdentityKey → Arr 32
  publicBytes : ed.PublicIdentity → Arr 32
  publicFrom : Arr 32 → Option ed.PublicIdentity

/-- What it turned into bytes it turns back. -/
structure KeyCodec.Correct {ed : Ed25519} (codec : KeyCodec ed) : Prop where
  fromSeed_seedOf : ∀ key, codec.fromSeed (codec.seedOf key) = key
  publicFrom_publicBytes : ∀ pk, codec.publicFrom (codec.publicBytes pk) = some pk

/-- A secret loaded from a key file. -/
inductive SecretKey (ed : Ed25519)
  | identity (key : ed.IdentityKey)
  | operator (bytes : Arr 32)

/-- The call of a load that fails on a file that is there. -/
inductive LoadFault
  | stat
  | read
  deriving DecidableEq

section Load
variable {ed : Ed25519} (b3 : Blake3) (codec : KeyCodec ed) (fault : Option LoadFault)

/-- A file may not be readable beyond its owner. -/
def checkPermissions (file : KeyPath) : Except KeyLoadError Unit :=
  match file with
  | none => .error .cannotStat
  | some f =>
    if fault = some .stat then .error .cannotStat
    else
      let mode := f.mode &&& 0o777
      if mode &&& forbiddenModeBits ≠ 0 then .error (.insecurePermissions mode) else .ok ()

/-- `fs::read` of a key file. -/
def readKeyFile (file : KeyPath) : Except KeyLoadError Str :=
  match file with
  | none => .error .cannotRead
  | some f => if fault = some .read then .error .cannotRead else .ok f.content

def loadSecret (file : KeyPath) : Except KeyLoadError (SecretKey ed) :=
  match checkPermissions fault file with
  | .error e => .error e
  | .ok () =>
    match readKeyFile fault file with
    | .error e => .error e
    | .ok bytes =>
      match decodeKeyFile b3 bytes with
      | .error e => .error e
      | .ok (.identity, material) => .ok (.identity (codec.fromSeed material))
      | .ok (.operator, material) => .ok (.operator material)

def loadIdentity (file : KeyPath) : Except KeyLoadError ed.IdentityKey :=
  match loadSecret b3 codec fault file with
  | .error e => .error e
  | .ok (.identity key) => .ok key
  | .ok (.operator _) => .error .expectedIdentity

def loadOperator (file : KeyPath) : Except KeyLoadError (Arr 32) :=
  match loadSecret b3 codec fault file with
  | .error e => .error e
  | .ok (.operator bytes) => .ok bytes
  | .ok (.identity _) => .error .expectedOperator

/-- Public keys carry no secret, and neither do their files need to. -/
def loadPublic (file : KeyPath) : Except KeyLoadError ed.PublicIdentity :=
  match readKeyFile fault file with
  | .error e => .error e
  | .ok bytes =>
    if bytes.length ≠ 32 then .error (.truncated 32 bytes.length)
    else
      match codec.publicFrom (arrAt 32 bytes 0) with
      | none => .error .notAPublicKey
      | some pk => .ok pk

end Load

/-! ### What is loaded -/

lemma KeyKind.fromU8_toU8 (kind : KeyKind) : fromU8 kind.toU8 = some kind := by
  cases kind <;> rfl

lemma KeyKind.toU8_of_fromU8 {value : UInt8} {kind : KeyKind} (h : fromU8 value = some kind) :
    kind.toU8 = value := by
  unfold fromU8 at h
  split_ifs at h with h1 h2
  · cases h
    exact h1.symm
  · cases h
    exact h2.symm

section Exact
variable {b3 : Blake3} {kind : KeyKind} {material : Arr 32} {bytes : Str}

@[simp] lemma length_encodeKeyFile :
    (encodeKeyFile b3 kind material).length = keyFileSize := by
  simp [encodeKeyFile, keyFileSize]

/-- What the checksum covers. -/
def keyFileHead (kind : KeyKind) (material : Arr 32) : Str :=
  keyMagic.toList ++ [keyVersion, kind.toU8] ++ (zeros 2).toList ++ material.toList

lemma encodeKeyFile_eq : encodeKeyFile b3 kind material =
    keyFileHead kind material ++ (blake3Digest b3 (keyFileHead kind material)).toList := rfl

lemma length_keyFileHead : (keyFileHead kind material).length = checksumOffset := by
  simp [keyFileHead, checksumOffset]

lemma reads_keyFileHead_append (kind : KeyKind) (material : Arr 32) (rest : Str) :
    arrAt 4 (keyFileHead kind material ++ rest) 0 = keyMagic ∧
      u8At (keyFileHead kind material ++ rest) 4 = keyVersion ∧
      u8At (keyFileHead kind material ++ rest) 5 = kind.toU8 ∧
      arrAt 2 (keyFileHead kind material ++ rest) 6 = zeros 2 ∧
      arrAt 32 (keyFileHead kind material ++ rest) keyHeaderLen = material := by
  simp [keyFileHead, keyHeaderLen, List.append_assoc, arrAt_append_right, u8At_append_right]

/-- A key file is decoded exactly if it is the encoding of what it is decoded to. -/
lemma decodeKeyFile_eq_ok_iff :
    decodeKeyFile b3 bytes = .ok (kind, material) ↔ bytes = encodeKeyFile b3 kind material := by
  constructor
  · intro h
    cases hkind : KeyKind.fromU8 (u8At bytes 5) with
    | none =>
      simp only [decodeKeyFile, hkind] at h
      split_ifs at h
    | some kind' =>
      simp only [decodeKeyFile, hkind] at h
      split_ifs at h with hlen hmagic hversion hzero hsum
      cases h
      have hlen : bytes.length = 72 := not_not.mp hlen
      have hpair : [u8At bytes 4, u8At bytes 5] = slice bytes 4 2 := by
        rw [← slice_append_slice bytes 4 1 1, slice_eq_singleton (by omega),
          slice_eq_singleton (by omega)]
        rfl
      have hhead : keyFileHead kind (arrAt 32 bytes keyHeaderLen) = bytes.take checksumOffset := by
        rw [keyFileHead, ← not_not.mp hmagic, ← not_not.mp hzero, ← not_not.mp hversion,
          KeyKind.toU8_of_fromU8 hkind, arrAt_toList (by omega), arrAt_toList (by omega),
          arrAt_toList (by rw [keyHeaderLen]; omega), hpair, slice_append_slice bytes 0 4 2,
          slice_append_slice bytes 0 6 2, keyHeaderLen, slice_append_slice bytes 0 8 32]
        rfl
      rw [encodeKeyFile_eq, hhead, not_not.mp hsum, List.take_append_drop]
  · rintro rfl
    rw [encodeKeyFile_eq]
    obtain ⟨hmagic, hversion, hkind, hzero, hmaterial⟩ := reads_keyFileHead_append kind material
      (blake3Digest b3 (keyFileHead kind material)).toList
    have hlen : (keyFileHead kind material ++
        (blake3Digest b3 (keyFileHead kind material)).toList).length = keyFileSize := by
      rw [← encodeKeyFile_eq, length_encodeKeyFile]
    simp only [decodeKeyFile, hlen, hmagic, hversion, hkind, KeyKind.fromU8_toU8, hzero, hmaterial,
      List.take_left' length_keyFileHead, List.drop_left' length_keyFileHead, ne_eq,
      not_true_eq_false, if_false]

/-- A key file has one reading. -/
lemma encodeKeyFile_inj {kind' : KeyKind} {material' : Arr 32}
    (h : encodeKeyFile b3 kind material = encodeKeyFile b3 kind' material') :
    kind = kind' ∧ material = material' := by
  have hdecode := decodeKeyFile_eq_ok_iff.mpr h
  rw [decodeKeyFile_eq_ok_iff.mpr rfl, Except.ok.injEq, Prod.mk.injEq] at hdecode
  exact hdecode

lemma checkPermissions_eq_ok_iff {fault : Option LoadFault} {file : KeyPath} :
    checkPermissions fault file = .ok () ↔
      fault ≠ some .stat ∧ ∃ f, file = some f ∧ f.OwnerOnly := by
  have hmask : ∀ mode : UInt32, mode &&& 0o777 &&& forbiddenModeBits = mode &&& forbiddenModeBits :=
    fun mode => UInt32.and_assoc mode _ _
  cases file with
  | none => simp [checkPermissions]
  | some f =>
    simp only [checkPermissions, hmask, Option.some.injEq, exists_eq_left', File.OwnerOnly]
    split_ifs with hfault h
    · simp [hfault]
    · simp [h]
    · simp [hfault, not_not.mp h]

lemma readKeyFile_eq_ok_iff {fault : Option LoadFault} {file : KeyPath} :
    readKeyFile fault file = .ok bytes ↔
      fault ≠ some .read ∧ ∃ f, file = some f ∧ f.content = bytes := by
  cases file with
  | none => simp [readKeyFile]
  | some f =>
    simp only [readKeyFile, Option.some.injEq, exists_eq_left']
    split_ifs with hfault
    · simp [hfault]
    · simp [hfault]

lemma LoadFault.eq_none_iff {fault : Option LoadFault} :
    fault = none ↔ fault ≠ some .stat ∧ fault ≠ some .read := by
  rcases fault with _ | _ | _ <;> simp

end Exact

section Loaded
variable {ed : Ed25519} {b3 : Blake3} {codec : KeyCodec ed} {fault : Option LoadFault}
  {file : KeyPath}

/-- The key of a kind that some material is. -/
def SecretKey.of (codec : KeyCodec ed) : KeyKind → Arr 32 → SecretKey ed
  | .identity, material => .identity (codec.fromSeed material)
  | .operator, material => .operator material

lemma loadSecret_eq_ok_iff {key : SecretKey ed} : loadSecret b3 codec fault file = .ok key ↔
    fault = none ∧ ∃ f kind material, file = some f ∧ f.OwnerOnly ∧
      f.content = encodeKeyFile b3 kind material ∧ key = .of codec kind material := by
  unfold loadSecret
  rw [LoadFault.eq_none_iff]
  constructor
  · intro h
    cases hcheck : checkPermissions fault file with
    | error e => simp [hcheck] at h
    | ok _ =>
      obtain ⟨hstat, f, rfl, howner⟩ := checkPermissions_eq_ok_iff.mp hcheck
      cases hread : readKeyFile fault (some f) with
      | error e => simp [hcheck, hread] at h
      | ok bytes =>
        simp only [hcheck, hread] at h
        obtain ⟨hfault, f', hf, rfl⟩ := readKeyFile_eq_ok_iff.mp hread
        cases hf
        cases hdecode : decodeKeyFile b3 f.content with
        | error e => simp [hdecode] at h
        | ok x =>
          obtain ⟨kind, material⟩ := x
          refine ⟨⟨hstat, hfault⟩, f, kind, material, rfl, howner,
            decodeKeyFile_eq_ok_iff.mp hdecode, ?_⟩
          cases kind
          · simp only [hdecode, Except.ok.injEq] at h
            exact h.symm
          · simp only [hdecode, Except.ok.injEq] at h
            exact h.symm
  · rintro ⟨⟨hstat, hread⟩, f, kind, material, hf, howner, hcontent, rfl⟩
    simp only [checkPermissions_eq_ok_iff.mpr ⟨hstat, f, hf, howner⟩,
      readKeyFile_eq_ok_iff.mpr ⟨hread, f, hf, rfl⟩, decodeKeyFile_eq_ok_iff.mpr hcontent]
    cases kind <;> rfl

lemma loadIdentity_eq_ok_iff {key : ed.IdentityKey} : loadIdentity b3 codec fault file = .ok key ↔
    loadSecret b3 codec fault file = .ok (.identity key) := by
  unfold loadIdentity
  rcases loadSecret b3 codec fault file with e | k | bytes <;> simp

lemma loadOperator_eq_ok_iff {bytes : Arr 32} : loadOperator b3 codec fault file = .ok bytes ↔
    loadSecret b3 codec fault file = .ok (.operator bytes) := by
  unfold loadOperator
  rcases loadSecret b3 codec fault file with e | k | b <;> simp

/-- A key is loaded exactly from a file that can be read, that nobody but its owner has a permission
on and that is the encoding of a key of the kind asked for; no file is a key of both kinds. -/
theorem load_exact (b3 : Blake3) (codec : KeyCodec ed) (file : KeyPath) :
    (∀ fault key, loadIdentity b3 codec fault file = .ok key ↔ fault = none ∧ ∃ f seed,
      file = some f ∧ f.OwnerOnly ∧ f.content = encodeKeyFile b3 .identity seed ∧
        key = codec.fromSeed seed) ∧
    (∀ fault bytes, loadOperator b3 codec fault file = .ok bytes ↔ fault = none ∧ ∃ f,
      file = some f ∧ f.OwnerOnly ∧ f.content = encodeKeyFile b3 .operator bytes) ∧
    ∀ fault fault' key bytes, loadIdentity b3 codec fault file = .ok key →
      loadOperator b3 codec fault' file ≠ .ok bytes := by
  refine ⟨fun fault key => ?_, fun fault bytes => ?_, fun fault fault' key bytes hkey hbytes => ?_⟩
  · rw [loadIdentity_eq_ok_iff, loadSecret_eq_ok_iff]
    refine and_congr_right fun _ => ?_
    constructor
    · rintro ⟨f, kind, material, hf, howner, hcontent, hkey⟩
      cases kind
      · cases hkey
        exact ⟨f, material, hf, howner, hcontent, rfl⟩
      · cases hkey
    · rintro ⟨f, seed, hf, howner, hcontent, rfl⟩
      exact ⟨f, .identity, seed, hf, howner, hcontent, rfl⟩
  · rw [loadOperator_eq_ok_iff, loadSecret_eq_ok_iff]
    refine and_congr_right fun _ => ?_
    constructor
    · rintro ⟨f, kind, material, hf, howner, hcontent, hkey⟩
      cases kind
      · cases hkey
      · cases hkey
        exact ⟨f, hf, howner, hcontent⟩
    · rintro ⟨f, hf, howner, hcontent⟩
      exact ⟨f, .operator, bytes, hf, howner, hcontent, rfl⟩
  · obtain ⟨rfl, -⟩ := loadSecret_eq_ok_iff.mp (loadIdentity_eq_ok_iff.mp hkey)
    obtain ⟨rfl, -⟩ := loadSecret_eq_ok_iff.mp (loadOperator_eq_ok_iff.mp hbytes)
    rw [loadIdentity_eq_ok_iff] at hkey
    rw [loadOperator_eq_ok_iff, hkey] at hbytes
    cases hbytes

end Loaded
end Dhow
