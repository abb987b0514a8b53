import Dhow.Manifest
import Dhow.ReferenceSession

/-!
# Manifest verification

Signing and receiver-side verification (`manifest.rs` of the crypt crate). Ed25519 is not part of
the repository and is a parameter. Structure comes before the signature and policy after it, so
that policy speaks of authenticated bytes only; what is signed and what is parsed are the same
bytes.
-/

namespace Dhow
open Bytes

/-- The signature scheme of the `ed25519_dalek` crate. -/
structure Ed25519 where
  IdentityKey : Type
  PublicIdentity : Type
  publicOf : IdentityKey → PublicIdentity
  sign : IdentityKey → Str → Arr 64
  verify : PublicIdentity → Str → Arr 64 → Bool

/-- A signature verifies under the public half of the key that made it. -/
def Ed25519.Correct (ed : Ed25519) : Prop :=
  ∀ key message, ed.verify (ed.publicOf key) message (ed.sign key message) = true

/-- The errors of the crypt crate. -/
inductive CryptManifestError
  | invalidMagic (got : Arr 4)
  | unsupportedVersion (version : UInt8)
  | signatureVerificationFailed
  | crcMismatch
  | truncated (expected actual : ℕ)
  | pathTraversal (name : String)
  | fileNameTooLong (length : ℕ)
  | fileSizeTooLarge (size max : UInt64)
  | invalidBlockCount (count : UInt32)
  | sessionMismatch
  | malformed (details : String)
  deriving DecidableEq

def convertCodecError : ManifestError → CryptManifestError
  | .invalidMagic got => .invalidMagic got
  | .unsupportedVersion version => .unsupportedVersion version
  | .signatureVerificationFailed => .signatureVerificationFailed
  | .crcMismatch => .crcMismatch
  | .truncated expected actual => .truncated expected actual
  | .pathTraversal name => .pathTraversal name
  | .fileNameTooLong length => .fileNameTooLong length
  | .fileSizeTooLarge size max => .fileSizeTooLarge size max
  | .invalidFileCount count => .invalidBlockCount count
  | .sessionMismatch => .sessionMismatch
  | .malformed details => .malformed details

/-- The limits a receiver applies to a manifest it has authenticated. -/
structure Policy where
  maxTotalSize : UInt64
  maxFileSize : UInt64
  maxFileCount : UInt32

/-- The limits of `Policy::default`. -/
def Policy.default : Policy where
  maxTotalSize := 64 * 1024 * 1024 * 1024
  maxFileSize := 16 * 1024 * 1024 * 1024
  maxFileCount := Dhow.maxFileCount

/-- A manifest with a signature that verifies under its signer. -/
structure VerifiedManifest (ed : Ed25519) where
  manifest : Manifest
  signer : ed.PublicIdentity
  signature_verifies :
    ed.verify signer manifest.signingBytes manifest.header.signature = true

/-- The bytes with the ones from `start` on replaced by `src`. -/
def copyFromSlice (bytes : Str) (start : ℕ) (src : Str) : Str :=
  bytes.take start ++ (src ++ bytes.drop (start + src.length))

def signManifest (ed : Ed25519) (identity : ed.IdentityKey) (manifest : Manifest) : Str :=
  copyFromSlice manifest.toVec signatureOffset (ed.sign identity manifest.signingBytes).toList

def parseManifest (bytes : Str) : Except CryptManifestError Manifest :=
  match Manifest.fromBytes bytes with
  | .error e => .error (convertCodecError e)
  | .ok manifest => .ok manifest

def verifySignature (ed : Ed25519) (expectedSigner : ed.PublicIdentity) (bytes : Str) :
    Except CryptManifestError Manifest :=
  match parseManifest bytes with
  | .error e => .error e
  | .ok manifest =>
    match Manifest.signingBytesOf bytes with
    | .error e => .error (convertCodecError e)
    | .ok signingBytes =>
      if !ed.verify expectedSigner signingBytes manifest.header.signature then
        .error .signatureVerificationFailed
      else .ok manifest

def checkedAdd (a b : UInt64) : Option UInt64 :=
  if a.toNat + b.toNat < 2 ^ 64 then some (a + b) else none

/-- The loop over the entries, with the sum of the sizes so far. -/
def sumEntries (policy : Policy) (summed : UInt64) :
    List FileEntry → Except CryptManifestError UInt64
  | [] => .ok summed
  | entry :: entries =>
    match validateName entry.name with
    | .error e => .error (convertCodecError e)
    | .ok () =>
      if policy.maxFileSize < entry.size then
        .error (.fileSizeTooLarge entry.size policy.maxFileSize)
      else
        match checkedAdd summed entry.size with
        | none => .error (.fileSizeTooLarge (UInt64.ofNat (2 ^ 64 - 1)) policy.maxTotalSize)
        | some summed => sumEntries policy summed entries

def checkPolicy (manifest : Manifest) (policy : Policy) : Except CryptManifestError Unit :=
  let header := manifest.header
  match header.params.validate with
  | .error e => .error (.malformed e.toString)
  | .ok () =>
    if policy.maxFileCount < header.fileCount then .error (.invalidBlockCount header.fileCount)
    else if manifest.entries.length ≠ header.fileCount.toNat then
      .error (.invalidBlockCount header.fileCount)
    else if policy.maxTotalSize < header.totalSize then
      .error (.fileSizeTooLarge header.totalSize policy.maxTotalSize)
    else
      match sumEntries policy 0 manifest.entries with
      | .error e => .error e
      | .ok summed =>
        if summed ≠ header.totalSize then .error (.fileSizeTooLarge summed header.totalSize)
        else .ok ()

/-! ### What a signature covers -/

lemma parseManifest_eq_ok_iff {bytes : Str} {m : Manifest} :
    parseManifest bytes = .ok m ↔ m.Wf ∧ bytes = m.toVec := by
  rw [← Manifest.fromBytes_eq_ok_iff]
  unfold parseManifest
  cases Manifest.fromBytes bytes with
  | error e => simp
  | ok m' => simp

/-- A signature that verifies was checked over the parsed manifest's own signing bytes. -/
lemma verifySignature_eq_ok_iff {ed : Ed25519} {pk : ed.PublicIdentity} {bytes : Str}
    {m : Manifest} : verifySignature ed pk bytes = .ok m ↔
      m.Wf ∧ bytes = m.toVec ∧ ed.verify pk m.signingBytes m.header.signature = true := by
  unfold verifySignature
  constructor
  · intro h
    cases hp : parseManifest bytes with
    | error e => simp [hp] at h
    | ok m' =>
      obtain ⟨hwf, rfl⟩ := parseManifest_eq_ok_iff.mp hp
      have hlen : ¬m'.toVec.length < manifestHeaderSize := by simp [Manifest.toVec]
      simp only [hp, Manifest.signingBytesOf, if_neg hlen] at h
      split_ifs at h with hv
      cases h
      exact ⟨hwf, rfl, by simpa [Manifest.signingBytes] using hv⟩
  · rintro ⟨hwf, rfl, hv⟩
    have hlen : ¬m.toVec.length < manifestHeaderSize := by simp [Manifest.toVec]
    have hv' : ed.verify pk (fill m.toVec signatureOffset manifestHeaderSize)
        m.header.signature = true := hv
    simp only [parseManifest_eq_ok_iff.mpr ⟨hwf, rfl⟩, Manifest.signingBytesOf, if_neg hlen, hv']
    rfl

/-- `verify_manifest_with`: structure and signature, then session and policy. -/
def verifyManifestWith (ed : Ed25519) (expectedSigner : ed.PublicIdentity) (bytes : Str)
    (sessionId : Option (Arr 16)) (policy : Policy) :
    Except CryptManifestError (VerifiedManifest ed) :=
  match hv : verifySignature ed expectedSigner bytes with
  | .error e => .error e
  | .ok manifest =>
    if sessionId.any fun expected => manifest.header.sessionId ≠ expected then
      .error .sessionMismatch
    else
      match checkPolicy manifest policy with
      | .error e => .error e
      | .ok () => .ok ⟨manifest, expectedSigner, (verifySignature_eq_ok_iff.mp hv).2.2⟩

def verifyManifest (ed : Ed25519) (expectedSigner : ed.PublicIdentity) (bytes : Str)
    (sessionId : Arr 16) (policy : Policy) : Except CryptManifestError (VerifiedManifest ed) :=
  verifyManifestWith ed expectedSigner bytes (some sessionId) policy

/-! ### What policy promises -/

/-- What a manifest promises that passed the policy checks. -/
structure Policy.Admits (policy : Policy) (m : Manifest) : Prop where
  params_valid : m.header.params.validate = .ok ()
  fileCount_le : m.header.fileCount ≤ policy.maxFileCount
  fileCount_eq : m.header.fileCount.toNat = m.entries.length
  totalSize_le : m.header.totalSize ≤ policy.maxTotalSize
  entries : ∀ e ∈ m.entries, validateName e.name = .ok () ∧ e.size ≤ policy.maxFileSize
  totalSize_eq : m.header.totalSize.toNat = (m.entries.map fun e => e.size.toNat).sum

lemma checkedAdd_eq_some_iff {a b c : UInt64} :
    checkedAdd a b = some c ↔ c.toNat = a.toNat + b.toNat := by
  unfold checkedAdd
  have hc := c.toNat_lt
  split_ifs with h
  · rw [Option.some.injEq, ← UInt64.toNat_inj, UInt64.toNat_add, Nat.mod_eq_of_lt h, eq_comm]
  · constructor
    · intro hn
      cases hn
    · intro hn
      omega

/-- The loop passes exactly on admissible entries, and its sum is the sum of the sizes. -/
lemma sumEntries_eq_ok_iff {policy : Policy} {entries : List FileEntry} {start sum : UInt64} :
    sumEntries policy start entries = .ok sum ↔
      (∀ e ∈ entries, validateName e.name = .ok () ∧ e.size ≤ policy.maxFileSize) ∧
        sum.toNat = start.toNat + (entries.map fun e => e.size.toNat).sum := by
  induction entries generalizing start with
  | nil =>
    simp only [sumEntries, Except.ok.injEq, List.not_mem_nil, false_imp_iff, implies_true,
      List.map_nil, List.sum_nil, Nat.add_zero, true_and, UInt64.toNat_inj]
    exact eq_comm
  | cons e entries ih =>
    rw [List.forall_mem_cons, List.map_cons, List.sum_cons]
    simp only [sumEntries]
    constructor
    · intro h
      cases hn : validateName e.name with
      | error err => simp [hn] at h
      | ok u =>
        simp only [hn] at h
        split_ifs at h with hsize
        cases ha : checkedAdd start e.size with
        | none => simp [ha] at h
        | some next =>
          simp only [ha] at h
          obtain ⟨hall, hsum⟩ := ih.mp h
          rw [checkedAdd_eq_some_iff.mp ha] at hsum
          exact ⟨⟨⟨rfl, UInt64.not_lt.mp hsize⟩, hall⟩, by omega⟩
    · rintro ⟨⟨⟨hn, hsize⟩, hall⟩, hsum⟩
      have hlt := sum.toNat_lt
      have hadd : start.toNat + e.size.toNat < 2 ^ 64 := by omega
      have hnext : checkedAdd start e.size = some (start + e.size) := by
        rw [checkedAdd, if_pos hadd]
      simp only [hn, if_neg (UInt64.not_lt.mpr hsize), hnext]
      refine ih.mpr ⟨hall, ?_⟩
      rw [checkedAdd_eq_some_iff.mp hnext]
      omega

lemma checkPolicy_eq_ok_iff {m : Manifest} {policy : Policy} :
    checkPolicy m policy = .ok () ↔ policy.Admits m := by
  unfold checkPolicy
  dsimp only
  constructor
  · intro h
    cases hp : m.header.params.validate with
    | error e => simp [hp] at h
    | ok u =>
      simp only [hp] at h
      split_ifs at h with hcount hlen htotal
      cases hs : sumEntries policy 0 m.entries with
      | error e => simp [hs] at h
      | ok summed =>
        simp only [hs] at h
        split_ifs at h with hsum
        obtain ⟨hall, he⟩ := sumEntries_eq_ok_iff.mp hs
        rw [not_not.mp hsum] at he
        exact ⟨hp, UInt32.not_lt.mp hcount, (not_not.mp hlen).symm, UInt64.not_lt.mp htotal,
          hall, by simpa using he⟩
  · rintro ⟨hp, hcount, hlen, htotal, hall, hsum⟩
    have hs : sumEntries policy 0 m.entries = .ok m.header.totalSize :=
      sumEntries_eq_ok_iff.mpr ⟨hall, by rw [hsum]; exact (Nat.zero_add _).symm⟩
    rw [hp]
    dsimp only
    rw [if_neg (UInt32.not_lt.mpr hcount), if_neg (not_not.mpr hlen.symm),
      if_neg (UInt64.not_lt.mpr htotal), hs]
    dsimp only
    rw [if_neg (not_not.mpr rfl)]

/-- Verification accepts exactly the serializations of well-formed manifests with a valid
signature, the expected session and an admitting policy. -/
theorem verifyManifestWith_eq_ok_iff {ed : Ed25519} {pk : ed.PublicIdentity} {bytes : Str}
    {sessionId : Option (Arr 16)} {policy : Policy} {v : VerifiedManifest ed} :
    verifyManifestWith ed pk bytes sessionId policy = .ok v ↔
      v.manifest.Wf ∧ bytes = v.manifest.toVec ∧ v.signer = pk ∧
        (∀ expected, sessionId = some expected → v.manifest.header.sessionId = expected) ∧
        policy.Admits v.manifest := by
  have hany : ∀ m : Manifest,
      (sessionId.any fun expected => m.header.sessionId ≠ expected) = false ↔
        ∀ expected, sessionId = some expected → m.header.sessionId = expected := by
    intro m
    cases sessionId with
    | none => simp
    | some s => simp only [Option.any_some, decide_eq_false_iff_not, not_not, Option.some.injEq,
        forall_eq']
  unfold verifyManifestWith
  constructor
  · intro h
    split at h
    next e hv => cases h
    next m hv =>
      obtain ⟨hwf, hb, -⟩ := verifySignature_eq_ok_iff.mp hv
      split_ifs at h with hs
      cases hc : checkPolicy m policy with
      | error e => simp [hc] at h
      | ok u =>
        simp only [hc, Except.ok.injEq] at h
        subst h
        exact ⟨hwf, hb, rfl, (hany m).mp (by simpa using hs), checkPolicy_eq_ok_iff.mp hc⟩
  · rintro ⟨hwf, hb, rfl, hs, hp⟩
    have hv := verifySignature_eq_ok_iff.mpr ⟨hwf, hb, v.signature_verifies⟩
    split
    next e hv' =>
      rw [hv] at hv'
      cases hv'
    next m hv' =>
      rw [hv, Except.ok.injEq] at hv'
      subst hv'
      simp only [(hany _).mpr hs, Bool.false_eq_true, if_false, checkPolicy_eq_ok_iff.mpr hp]

/-! ### The gate -/

namespace Manifest

/-- The bytes of a header before its signature. -/
def unsigned (h : ManifestHeader) : Str :=
  crcCoveredBytes h.sessionId h.fileCount h.totalSize h.salt h.nonce h.params ++ u32le h.crc32c

lemma length_unsigned (h : ManifestHeader) : (unsigned h).length = signatureOffset := by
  simp [unsigned, crcCoveredBytes, signatureOffset]

lemma toVec_eq (m : Manifest) : m.toVec =
    unsigned m.header ++ (m.header.signature.toList ++ m.entries.flatMap FileEntry.toVec) := by
  simp [toVec, ManifestHeader.toVec, unsigned]

/-- The signing bytes are the serialization under a cleared signature. -/
lemma signingBytes_eq (m : Manifest) :
    m.signingBytes = (build m.header m.entries (zeros 64)).toVec := by
  have hdrop : m.toVec.drop manifestHeaderSize = m.entries.flatMap FileEntry.toVec := by
    rw [toVec, List.drop_left' (ManifestHeader.length_toVec _)]
  rw [signingBytes, fill, hdrop, toVec_eq, toVec_eq, List.take_left' (length_unsigned _)]
  rfl

lemma Wf.build {m : Manifest} (h : m.Wf) (signature : Arr 64) :
    (build m.header m.entries signature).Wf := ⟨h.fileCount_le, h.fileCount_eq, h.entries_wf⟩

lemma Wf.eq_of_toVec_eq {m m' : Manifest} (h : m.Wf) (h' : m'.Wf) (he : m.toVec = m'.toVec) :
    m = m' := by
  have hm := fromBytes_eq_ok_iff.mpr ⟨h, rfl⟩
  rw [fromBytes_eq_ok_iff.mpr ⟨h', he⟩, Except.ok.injEq] at hm
  exact hm.symm

/-- Well-formed manifests with the same signing bytes agree in all but the signature. -/
lemma Wf.build_eq_of_signingBytes_eq {m m' : Manifest} (h : m.Wf) (h' : m'.Wf)
    (he : m.signingBytes = m'.signingBytes) (signature : Arr 64) :
    Manifest.build m.header m.entries signature =
      Manifest.build m'.header m'.entries signature := by
  rw [signingBytes_eq, signingBytes_eq] at he
  have hbuild := (h.build _).eq_of_toVec_eq (h'.build _) he
  exact congrArg (fun n => Manifest.build n.header n.entries signature) hbuild

end Manifest

/-! ### Signed manifests -/

/-- A signed manifest is the serialization under its signature. -/
lemma signManifest_eq (ed : Ed25519) (identity : ed.IdentityKey) (m : Manifest) :
    signManifest ed identity m =
      (Manifest.build m.header m.entries (ed.sign identity m.signingBytes)).toVec := by
  have hdrop : m.toVec.drop (signatureOffset + 64) = m.entries.flatMap FileEntry.toVec := by
    rw [Manifest.toVec]
    exact List.drop_left' (ManifestHeader.length_toVec _)
  rw [signManifest, copyFromSlice, List.Vector.toList_length, hdrop, Manifest.toVec_eq,
    Manifest.toVec_eq, List.take_left' (Manifest.length_unsigned _)]
  rfl

/-- What an identity signs verifies under its public half, where session and policy admit it. -/
theorem verifyManifestWith_signManifest {ed : Ed25519} (hed : ed.Correct)
    (identity : ed.IdentityKey) {m : Manifest} (hwf : m.Wf) {sessionId : Option (Arr 16)}
    (hs : ∀ expected, sessionId = some expected → m.header.sessionId = expected)
    {policy : Policy} (hp : policy.Admits m) :
    ∃ v, verifyManifestWith ed (ed.publicOf identity) (signManifest ed identity m) sessionId
        policy = .ok v ∧
      v.manifest = Manifest.build m.header m.entries (ed.sign identity m.signingBytes) := by
  have hsigning : (Manifest.build m.header m.entries
      (ed.sign identity m.signingBytes)).signingBytes = m.signingBytes := by
    rw [Manifest.signingBytes_eq, Manifest.signingBytes_eq]
    rfl
  have hv : ed.verify (ed.publicOf identity)
      (Manifest.build m.header m.entries (ed.sign identity m.signingBytes)).signingBytes
      (ed.sign identity m.signingBytes) = true := by
    rw [hsigning]
    exact hed identity _
  exact ⟨⟨_, _, hv⟩, verifyManifestWith_eq_ok_iff.mpr ⟨hwf.build _, signManifest_eq _ _ _, rfl, hs,
    hp.params_valid, hp.fileCount_le, hp.fileCount_eq, hp.totalSize_le, hp.entries,
    hp.totalSize_eq⟩, rfl⟩

/-- Whatever bytes verification accepts: the manifest parsed from them serializes back to them,
the signature covers all of them but itself, session and policy hold with the sizes summed
without wrapping, and no other accepted bytes with the same signing bytes say anything else. -/
theorem verifyManifestWith_gate {ed : Ed25519} {pk : ed.PublicIdentity} {bytes : Str}
    {sessionId : Option (Arr 16)} {policy : Policy} {v : VerifiedManifest ed}
    (h : verifyManifestWith ed pk bytes sessionId policy = .ok v) :
    let m := v.manifest
    Manifest.fromBytes bytes = .ok m ∧ m.toVec = bytes ∧ v.signer = pk ∧
    ed.verify pk (fill bytes 164 228) (arrAt 64 bytes 164) = true ∧
    (∀ expected, sessionId = some expected → m.header.sessionId = expected) ∧
    m.header.fileCount.toNat = m.entries.length ∧ m.header.fileCount ≤ policy.maxFileCount ∧
    (∀ e ∈ m.entries, validateName e.name = .ok () ∧ e.size ≤ policy.maxFileSize) ∧
    m.header.totalSize.toNat = (m.entries.map fun e => e.size.toNat).sum ∧
    m.header.totalSize ≤ policy.maxTotalSize ∧ m.header.params.validate = .ok () ∧
    ∀ (pk' : ed.PublicIdentity) (bytes' : Str) (sessionId' : Option (Arr 16)) (policy' : Policy)
      (v' : VerifiedManifest ed),
      verifyManifestWith ed pk' bytes' sessionId' policy' = .ok v' →
      Manifest.signingBytesOf bytes' = Manifest.signingBytesOf bytes →
      ∀ signature, Manifest.build v'.manifest.header v'.manifest.entries signature =
        Manifest.build m.header m.entries signature := by
  obtain ⟨hwf, rfl, rfl, hs, hp⟩ := verifyManifestWith_eq_ok_iff.mp h
  have hsignature : arrAt 64 v.manifest.toVec 164 = v.manifest.header.signature :=
    (ManifestHeader.reads_toVec_append v.manifest.header _).2.2.2.2.2.2.2.2.2.2.2
  have hsigning : ∀ n : Manifest, Manifest.signingBytesOf n.toVec = .ok n.signingBytes := by
    intro n
    have hlen : ¬n.toVec.length < manifestHeaderSize := by simp [Manifest.toVec]
    rw [Manifest.signingBytesOf, if_neg hlen, Manifest.signingBytes]
  refine ⟨Manifest.fromBytes_eq_ok_iff.mpr ⟨hwf, rfl⟩, rfl, rfl, ?_, hs, hp.fileCount_eq,
    hp.fileCount_le, hp.entries, hp.totalSize_eq, hp.totalSize_le, hp.params_valid, ?_⟩
  · rw [hsignature]
    exact v.signature_verifies
  · intro pk' bytes' sessionId' policy' v' h' he signature
    obtain ⟨hwf', rfl, -, -, -⟩ := verifyManifestWith_eq_ok_iff.mp h'
    rw [hsigning, hsigning, Except.ok.injEq] at he
    exact hwf'.build_eq_of_signingBytes_eq hwf he signature

namespace Reference

/-- The keyed hash of a message, twice. -/
def stamp (key : Arr 32) (message : Str) : Arr 64 :=
  arrAt 64 ((b3.keyedHash key message).toList ++ (b3.keyedHash key message).toList) 0

/-- The keyed hash as a signature scheme, in which every key is its own public half. -/
def ed : Ed25519 where
  IdentityKey := Arr 32
  PublicIdentity := Arr 32
  publicOf := id
  sign := stamp
  verify key message signature := signature = stamp key message

lemma ed_correct : ed.Correct := by
  intro key message
  simp [ed]
  rfl

def entries : List FileEntry := [⟨"bin/a", 2, zeros 32, true⟩, ⟨"b", 1, zeros 32, false⟩]

def manifest : Manifest :=
  ⟨.new sessionId entries 3 (zeros 32) (zeros 24) params, entries⟩

lemma manifest_wf : manifest.Wf := ⟨by decide, rfl, by decide +kernel⟩

lemma manifest_admitted : Policy.default.Admits manifest :=
  ⟨rfl, by decide, rfl, by decide, by decide +kernel, rfl⟩

end Reference

theorem verifyManifestWith_gate_reference :
    ∃ v, verifyManifestWith Reference.ed Reference.sessionKey
        (signManifest Reference.ed Reference.sessionKey Reference.manifest)
        (some Reference.sessionId) .default = .ok v ∧
      v.manifest.toVec = signManifest Reference.ed Reference.sessionKey Reference.manifest ∧
      v.manifest.header.totalSize.toNat =
        (v.manifest.entries.map fun e => e.size.toNat).sum := by
  obtain ⟨v, hv, -⟩ := verifyManifestWith_signManifest Reference.ed_correct Reference.sessionKey
    Reference.manifest_wf (fun _ h => Option.some.inj h) Reference.manifest_admitted
  obtain ⟨-, hvec, -, -, -, -, -, -, hsum, -⟩ := verifyManifestWith_gate hv
  exact ⟨v, hv, hvec, hsum⟩

end Dhow
