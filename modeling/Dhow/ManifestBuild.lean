import Dhow.Signing

/-!
# Building a manifest across the foreign interface

What `dhow_manifest_build` does with the pointers and entries a caller hands it. The declared total
is a sum of the entries' sizes that wraps, where the receiver's sum is checked.
-/

namespace Dhow
open Bytes

def ManifestError.toString : ManifestError → String
  | .invalidMagic got => s!"invalid manifest magic: expected DHMF, got {got.toList}"
  | .unsupportedVersion version => s!"unsupported manifest version: {version}"
  | .signatureVerificationFailed => "manifest signature verification failed"
  | .crcMismatch => "manifest CRC mismatch"
  | .truncated expected actual => s!"manifest truncated: expected {expected} bytes, got {actual}"
  | .pathTraversal name => s!"path traversal detected in file name: {name}"
  | .fileNameTooLong length => s!"file name too long: {length} bytes (max 4096)"
  | .fileSizeTooLarge size max => s!"file size {size} exceeds maximum {max}"
  | .invalidFileCount count => s!"invalid file count in manifest: {count}"
  | .sessionMismatch => "manifest session ID mismatch"
  | .malformed details => s!"malformed manifest: {details}"

namespace Abi

/-- A file entry of the interface. The name is null or the bytes before its NUL. -/
structure DhowFileEntry where
  name : Option { bytes : Str // 0 ∉ bytes }
  size : UInt64
  digest : Arr 32
  executable : UInt8
  reserved : Arr 7

/-- The entries left, the first of them number `i`. -/
def entriesLoop : (i : ℕ) → List DhowFileEntry → Except String (List FileEntry)
  | _, [] => .ok []
  | i, entry :: raw =>
    match entry.name with
    | none => .error s!"file entry {i} had a null name"
    | some bytes =>
      if entry.reserved ≠ zeros 7 then .error s!"file entry {i} set a reserved byte"
      else
        match fromUtf8 bytes.val with
        | none => .error s!"file entry {i} had a name that is not valid UTF-8"
        | some name =>
          match validateName name with
          | .error e => .error s!"file entry {i}: {e.toString}"
          | .ok () =>
            match entriesLoop (i + 1) raw with
            | .error e => .error e
            | .ok out => .ok (⟨name, entry.size, entry.digest, entry.executable != 0⟩ :: out)

/-- The array is null or holds `count` entries. -/
def entriesFrom {count : ℕ} (entries : Option (List.Vector DhowFileEntry count)) :
    Except String (List FileEntry) :=
  if count = 0 then .ok []
  else
    match entries with
    | none => .error "file entry array was null"
    | some raw => entriesLoop 0 raw.toList

/-- A handle, or null with the text of the last error. -/
def dhowManifestBuild (ed : Ed25519) (identity : Option ed.IdentityKey)
    (sessionId : Option (Arr 16)) (salt : Option (Arr 32)) (nonce : Option (Arr 24))
    (params : DhowSessionParams) {count : ℕ}
    (entries : Option (List.Vector DhowFileEntry count)) : Except String DhowManifest :=
  match identity with
  | none => .error "identity handle was null"
  | some identity =>
    match sessionId, salt, nonce with
    | some sessionId, some salt, some nonce =>
      match entriesFrom entries with
      | .error e => .error e
      | .ok entries =>
        let unsigned := unsignedManifest sessionId salt nonce params entries
        let bytes := signManifest ed identity unsigned
        match Manifest.fromBytes bytes with
        | .error e => .error s!"signed manifest did not parse back: {e.toString}"
        | .ok manifest => .ok ⟨manifest, bytes⟩
    | _, _, _ => .error "session id, salt, or nonce pointer was null"

/-- The sizes the caller passes. -/
def sizes {count : ℕ} (entries : Option (List.Vector DhowFileEntry count)) : List ℕ :=
  (entries.elim [] List.Vector.toList).map fun entry => entry.size.toNat

/-- What the loop keeps of the entries: their sizes, and names that pass. -/
lemma of_entriesLoop_eq_ok {i : ℕ} {raw : List DhowFileEntry} {out : List FileEntry}
    (h : entriesLoop i raw = .ok out) :
    (out.map fun e => e.size.toNat) = (raw.map fun entry => entry.size.toNat) ∧
      ∀ e ∈ out, e.Wf := by
  induction raw generalizing i out with
  | nil =>
    cases h
    simp
  | cons entry raw ih =>
    rw [entriesLoop] at h
    cases hn : entry.name with
    | none => simp [hn] at h
    | some bytes =>
      simp only [hn] at h
      split_ifs at h with hreserved
      cases hu : fromUtf8 bytes.val with
      | none => simp [hu] at h
      | some name =>
        cases hv : validateName name with
        | error e => simp [hu, hv] at h
        | ok u =>
          cases hrest : entriesLoop (i + 1) raw with
          | error e => simp [hu, hv, hrest] at h
          | ok rest =>
            simp only [hu, hv, hrest, Except.ok.injEq] at h
            subst h
            obtain ⟨hsizes, hwf⟩ := ih hrest
            exact ⟨by rw [List.map_cons, List.map_cons, hsizes],
              List.forall_mem_cons.mpr ⟨hv, hwf⟩⟩

lemma of_entriesFrom_eq_ok {count : ℕ} {entries : Option (List.Vector DhowFileEntry count)}
    {out : List FileEntry} (h : entriesFrom entries = .ok out) :
    (out.map fun e => e.size.toNat) = sizes entries ∧ ∀ e ∈ out, e.Wf := by
  unfold entriesFrom at h
  split_ifs at h with hcount
  · cases h
    subst hcount
    refine ⟨?_, by simp⟩
    cases entries with
    | none => rfl
    | some raw =>
      have hraw : raw.toList = [] := List.length_eq_zero_iff.mp raw.toList_length
      rw [sizes, Option.elim_some, hraw]
      rfl
  · cases entries with
    | none => cases h
    | some raw => exact of_entriesLoop_eq_ok h

end Abi

/-! ### Reading the signed bytes back -/

/-- A serialized inventory has one reading. -/
lemma FileEntry.flatMap_toVec_inj {entries entries' : List FileEntry}
    (hwf : ∀ e ∈ entries, e.Wf) (hwf' : ∀ e ∈ entries', e.Wf)
    (h : entries.flatMap FileEntry.toVec = entries'.flatMap FileEntry.toVec) :
    entries = entries' := by
  have hne : ∀ (e : FileEntry) rest, e.toVec ++ rest ≠ [] := by
    intro e rest he
    have hlen := congrArg List.length he
    rw [List.length_append, FileEntry.length_toVec, entryFixedLen, List.length_nil] at hlen
    omega
  induction entries generalizing entries' with
  | nil =>
    cases entries' with
    | nil => rfl
    | cons e' entries' => exact absurd h.symm (hne _ _)
  | cons e entries ih =>
    cases entries' with
    | nil => exact absurd h (hne _ _)
    | cons e' entries' =>
      obtain ⟨he, htail⟩ := List.forall_mem_cons.mp hwf
      obtain ⟨he', htail'⟩ := List.forall_mem_cons.mp hwf'
      rw [List.flatMap_cons, List.flatMap_cons] at h
      have hread := he.fromBytes_toVec_append (entries.flatMap FileEntry.toVec)
      rw [h, he'.fromBytes_toVec_append, Except.ok.injEq, Prod.mk.injEq] at hread
      obtain ⟨rfl, -⟩ := hread
      rw [ih htail htail' (List.append_cancel_left h)]

/-- A manifest whose names pass is read back as itself or not at all. -/
lemma Manifest.eq_of_fromBytes_toVec {m m' : Manifest} (hwf : ∀ e ∈ m.entries, e.Wf)
    (h : fromBytes m.toVec = .ok m') : m' = m := by
  obtain ⟨hwf', hbytes⟩ := fromBytes_eq_ok_iff.mp h
  have hread : ManifestHeader.fromBytes m.toVec = .ok m.header :=
    ManifestHeader.fromBytes_eq_ok_iff.mpr ⟨_, rfl⟩
  have hheader : m'.header = m.header := by
    rw [ManifestHeader.fromBytes_eq_ok_iff.mpr ⟨_, hbytes⟩, Except.ok.injEq] at hread
    exact hread
  rw [toVec, toVec, hheader] at hbytes
  have hentries := FileEntry.flatMap_toVec_inj hwf hwf'.entries_wf (List.append_cancel_left hbytes)
  calc m' = ⟨m'.header, m'.entries⟩ := rfl
    _ = m := by rw [hheader, ← hentries]

namespace Abi

/-- What a handle describes: the entries that were passed, under the total the code sums. -/
lemma of_dhowManifestBuild_eq_ok {ed : Ed25519} {identity : Option ed.IdentityKey}
    {sessionId : Option (Arr 16)} {salt : Option (Arr 32)} {nonce : Option (Arr 24)}
    {params : DhowSessionParams} {count : ℕ}
    {entries : Option (List.Vector DhowFileEntry count)} {handle : DhowManifest}
    (h : dhowManifestBuild ed identity sessionId salt nonce params entries = .ok handle) :
    (handle.manifest.entries.map fun e => e.size.toNat) = sizes entries ∧
      handle.manifest.header.totalSize = (handle.manifest.entries.map FileEntry.size).sum := by
  unfold dhowManifestBuild at h
  cases identity with
  | none => cases h
  | some identity =>
    dsimp only at h
    split at h
    next sessionId salt nonce =>
      cases he : entriesFrom entries with
      | error e => simp [he] at h
      | ok out =>
        obtain ⟨hsizes, hwf⟩ := of_entriesFrom_eq_ok he
        simp only [he, signManifest_eq] at h
        split at h
        · cases h
        · next manifest hparse =>
          cases h
          rw [Manifest.eq_of_fromBytes_toVec hwf hparse]
          exact ⟨hsizes, rfl⟩
    · cases h

/-! ### The calls of the Go binding -/

/-- An entry of the inventory as `BuildManifest` passes it. -/
def ofInventory (e : InventoryEntry) : DhowFileEntry where
  name := some ⟨cString e.name, fun h => by simpa using List.mem_takeWhile_imp h⟩
  size := e.size
  digest := e.digest
  executable := if e.executable then 1 else 0
  reserved := zeros 7

/-- The array of `BuildManifest`: null for no entries. -/
def marshal (inventory : List InventoryEntry) :
    Option (List.Vector DhowFileEntry inventory.length) :=
  if inventory = [] then none
  else some ⟨inventory.map ofInventory, List.length_map ofInventory⟩

lemma entriesLoop_ofInventory (i : ℕ) (inventory : List InventoryEntry) :
    (entriesLoop i (inventory.map ofInventory)).toOption =
      ((inventory.zipIdx i).mapM entryFrom).toOption := by
  induction inventory generalizing i with
  | nil => rfl
  | cons e inventory ih =>
    have hexec : ((if e.executable then (1 : UInt8) else 0) != 0) = e.executable := by
      cases e.executable <;> rfl
    rw [List.map_cons, List.zipIdx_cons, List.mapM_cons, entriesLoop, entryFrom]
    simp only [ofInventory, ne_eq, not_true_eq_false, if_false, hexec]
    cases hu : fromUtf8 (cString e.name) with
    | none => rfl
    | some name =>
      dsimp only
      cases hv : validateName name with
      | error err => rfl
      | ok u =>
        rcases Except.toOption_eq_iff.mp (ih (i + 1)) with ⟨out, hl, hr⟩ | ⟨err, err', hl, hr⟩
        · rw [hl, hr]
          rfl
        · rw [hl, hr]
          rfl

lemma entriesFrom_marshal (inventory : List InventoryEntry) :
    (entriesFrom (marshal inventory)).toOption = (Dhow.entriesFrom inventory).toOption := by
  cases inventory with
  | nil => rfl
  | cons e inventory => exact entriesLoop_ofInventory 0 (e :: inventory)

/-- What the command builds is what the interface builds of the binding's call. -/
theorem dhowManifestBuild_marshal (ed : Ed25519) (identity : ed.IdentityKey) (sessionId : Arr 16)
    (salt : Arr 32) (nonce : Arr 24) (params : DhowSessionParams)
    (inventory : List InventoryEntry) :
    (dhowManifestBuild ed (some identity) (some sessionId) (some salt) (some nonce) params
      (marshal inventory)).toOption =
      (Dhow.dhowManifestBuild ed identity sessionId salt nonce params inventory).toOption := by
  simp only [dhowManifestBuild, Dhow.dhowManifestBuild]
  rcases Except.toOption_eq_iff.mp (entriesFrom_marshal inventory) with
    ⟨out, he, he'⟩ | ⟨e, e', he, he'⟩
  · rw [he, he']
    dsimp only
    cases Manifest.fromBytes (signManifest ed identity
      (unsignedManifest sessionId salt nonce params out)) <;> rfl
  · rw [he, he']
    rfl

/-! ### The declared total -/

/-- A handle's total is the sum of the sizes exactly when that is a `u64`; otherwise no policy
admits what was signed. -/
theorem totalSize_eq_sum_iff {ed : Ed25519} {identity : Option ed.IdentityKey}
    {sessionId : Option (Arr 16)} {salt : Option (Arr 32)} {nonce : Option (Arr 24)}
    {params : DhowSessionParams} {count : ℕ}
    {entries : Option (List.Vector DhowFileEntry count)} {handle : DhowManifest}
    (h : dhowManifestBuild ed identity sessionId salt nonce params entries = .ok handle) :
    (handle.manifest.header.totalSize.toNat = (sizes entries).sum ↔
        (sizes entries).sum < 2 ^ 64) ∧
      (2 ^ 64 ≤ (sizes entries).sum →
        ∀ policy, checkPolicy handle.manifest policy ≠ .ok ()) := by
  obtain ⟨hsizes, htotal⟩ := of_dhowManifestBuild_eq_ok h
  have hiff := toNat_sum_size_iff handle.manifest.entries
  rw [hsizes, ← htotal] at hiff
  refine ⟨hiff, fun hover policy hok => ?_⟩
  have hsum := (checkPolicy_eq_ok_iff.mp hok).totalSize_eq
  rw [hsizes] at hsum
  exact absurd (hiff.mp hsum) (Nat.not_lt.mpr hover)

/-- Two files of `size` bytes each. -/
def twoFiles (size : UInt64) : List InventoryEntry :=
  [⟨asBytes "a", size, zeros 32, false⟩, ⟨asBytes "b", size, zeros 32, false⟩]

lemma sum_sizes_twoFiles (size : UInt64) :
    (sizes (marshal (twoFiles size))).sum = 2 * size.toNat := by
  change size.toNat + (size.toNat + 0) = _
  omega

lemma exists_build_twoFiles (params : DhowSessionParams) (size : UInt64) :
    ∃ handle, dhowManifestBuild Reference.ed (some Reference.sessionKey)
      (some Reference.sessionId) (some (zeros 32)) (some (zeros 24)) params
      (marshal (twoFiles size)) = .ok handle := by
  let out : List FileEntry := [⟨"a", size, zeros 32, false⟩, ⟨"b", size, zeros 32, false⟩]
  have hutf8a : fromUtf8 (cString (asBytes "a")) = some "a" := by decide +kernel
  have hutf8b : fromUtf8 (cString (asBytes "b")) = some "b" := by decide +kernel
  have hnamea : validateName "a" = .ok () := by decide +kernel
  have hnameb : validateName "b" = .ok () := by decide +kernel
  have hout : entriesFrom (marshal (twoFiles size)) = .ok out := by
    change entriesLoop 0 ((twoFiles size).map ofInventory) = _
    simp only [twoFiles, ofInventory, List.map_cons, List.map_nil, entriesLoop, hutf8a, hutf8b,
      hnamea, hnameb, ne_eq, not_true_eq_false, if_false]
    rfl
  have hwf : (unsignedManifest Reference.sessionId (zeros 32) (zeros 24) params out).Wf := by
    refine ⟨?_, rfl, (of_entriesFrom_eq_ok hout).2⟩
    change (2 : UInt32) ≤ maxFileCount
    decide
  have hparse := Manifest.fromBytes_eq_ok_iff.mpr
    ⟨hwf.build _, signManifest_eq Reference.ed Reference.sessionKey _⟩
  simp only [dhowManifestBuild, hout, hparse, Except.ok.injEq, exists_eq']

/-- Two files of 2⁶³ bytes are signed with a total of zero. -/
theorem totalSize_wraps : ¬∀ (ed : Ed25519) (identity : Option ed.IdentityKey)
    (sessionId : Option (Arr 16)) (salt : Option (Arr 32)) (nonce : Option (Arr 24))
    (params : DhowSessionParams) (count : ℕ)
    (entries : Option (List.Vector DhowFileEntry count)) (handle : DhowManifest),
    dhowManifestBuild ed identity sessionId salt nonce params entries = .ok handle →
    handle.manifest.header.totalSize.toNat = (sizes entries).sum := by
  intro hclaim
  obtain ⟨handle, hbuild⟩ := exists_build_twoFiles ⟨0, 1, 64, 1, 5, zeros 32⟩
    0x8000000000000000
  have hsum : (sizes (marshal (twoFiles 0x8000000000000000))).sum = 2 ^ 64 :=
    sum_sizes_twoFiles _
  have htotal := hclaim _ _ _ _ _ _ _ _ handle hbuild
  rw [hsum] at htotal
  exact absurd htotal handle.manifest.header.totalSize.toNat_lt.ne

theorem totalSize_eq_sum_iff_small : ∃ handle,
    dhowManifestBuild Reference.ed (some Reference.sessionKey) (some Reference.sessionId)
      (some (zeros 32)) (some (zeros 24)) ⟨0, 1, 64, 1, 5, zeros 32⟩ (marshal (twoFiles 5)) =
      .ok handle ∧ handle.manifest.header.totalSize.toNat = 10 := by
  obtain ⟨handle, hbuild⟩ := exists_build_twoFiles ⟨0, 1, 64, 1, 5, zeros 32⟩ 5
  have hsum : (sizes (marshal (twoFiles 5))).sum = 10 := sum_sizes_twoFiles 5
  have htotal := (totalSize_eq_sum_iff hbuild).1
  rw [hsum] at htotal
  exact ⟨handle, hbuild, htotal.mpr (by decide)⟩

end Abi
end Dhow
