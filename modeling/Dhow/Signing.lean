import Dhow.PackRoundTrip
import Dhow.Receive
import Dhow.Lib.WrappingSum
import Mathlib.Data.List.TakeWhile

/-!
# What a sender signs

The packer, the planner, the encoder and the manifest builder check names, counts, sizes and
parameters each for themselves. Together they check all that the receiver's policy asks: a
manifest that was built verifies, and says what was signed.
-/

namespace Dhow
open Bytes FileSystem

/-! ### The inventory across the foreign interface -/

lemma cString_eq_self {s : Str} (h : 0 ∉ s) : cString s = s := by
  apply List.takeWhile_eq_self_iff.mpr
  intro b hb
  have hne : b ≠ 0 := fun hz => h (hz ▸ hb)
  simpa using hne

lemma Pack.zero_notMem_of_validateName {name : Str} (h : Pack.validateName name = .ok ()) :
    0 ∉ name := by
  unfold Pack.validateName at h
  split_ifs at h with h1 h2
  exact (not_or.mp h2).1

/-- An entry of the manifest as the inventory had it. -/
def FileEntry.toInventory (e : FileEntry) : InventoryEntry :=
  ⟨asBytes e.name, e.size, e.digest, e.executable⟩

lemma entryFrom_eq_ok {x : InventoryEntry × ℕ} {e : FileEntry} (hx : 0 ∉ x.1.name)
    (h : entryFrom x = .ok e) : e.toInventory = x.1 ∧ validateName e.name = .ok () := by
  unfold entryFrom at h
  rw [cString_eq_self hx] at h
  cases hu : fromUtf8 x.1.name with
  | none => simp [hu] at h
  | some name =>
    cases hv : validateName name with
    | error err => simp [hu, hv] at h
    | ok u =>
      simp only [hu, hv, Except.ok.injEq] at h
      subst h
      refine ⟨?_, hv⟩
      rw [FileEntry.toInventory, fromUtf8_eq_some_iff.mp hu]

/-- A name that is UTF-8 and passes the manifest's rule crosses the interface. -/
lemma exists_entryFrom {x : InventoryEntry × ℕ} {name : String} (hx : 0 ∉ x.1.name)
    (hname : x.1.name = asBytes name) (hv : validateName name = .ok ()) :
    ∃ e, entryFrom x = .ok e := by
  rw [entryFrom, cString_eq_self hx, hname, fromUtf8_asBytes]
  dsimp only
  rw [hv]
  exact ⟨_, rfl⟩

/-- The manifest's entries are the inventory's, in order. -/
lemma entriesFrom_eq_ok {inventory : List InventoryEntry} {entries : List FileEntry}
    (hnames : ∀ e ∈ inventory, 0 ∉ e.name) (h : entriesFrom inventory = .ok entries) :
    entries.map FileEntry.toInventory = inventory ∧
      ∀ e ∈ entries, validateName e.name = .ok () := by
  have hstep : ∀ x ∈ inventory.zipIdx, 0 ∉ x.1.name := by
    intro x hx
    exact hnames x.1 (List.mem_of_getElem? (List.mem_zipIdx_iff_getElem?.mp hx))
  constructor
  · apply List.ext_getElem?
    intro i
    have hlen := Except.length_of_mapM h
    rw [List.length_zipIdx] at hlen
    by_cases hi : i < inventory.length
    · have hx : inventory.zipIdx[i]? = some (inventory[i], i) := by
        rw [List.getElem?_zipIdx, List.getElem?_eq_getElem hi]
        simp
      obtain ⟨e, he, hok⟩ := Except.getElem?_of_mapM h hx
      have hname := (entryFrom_eq_ok (hstep _ (List.mem_of_getElem? hx)) hok).1
      rw [List.getElem?_map, he, Option.map_some, hname, List.getElem?_eq_getElem hi]
    · rw [List.getElem?_eq_none (by simpa [hlen] using hi), List.getElem?_eq_none (by omega)]
  · intro e he
    obtain ⟨x, hx, hok⟩ := (Except.mem_of_mapM h).mp he
    exact (entryFrom_eq_ok (hstep x hx) hok).2

/-- The total of the entries is the true one exactly when that is a `u64`. -/
lemma toNat_sum_size_iff (entries : List FileEntry) :
    (entries.map FileEntry.size).sum.toNat = (entries.map fun e => e.size.toNat).sum ↔
      (entries.map fun e => e.size.toNat).sum < 2 ^ 64 := by
  have h := WrappingSum.value_foldl_eq_sum_iff UInt64.toNat_add (entries.map FileEntry.size)
    UInt64.toNat_zero (by decide : 0 < 2 ^ 64)
  rwa [List.map_map, ← List.sum_eq_foldl] at h

/-! ### The signed bytes -/

/-- What the receiver's policy asks of an inventory. -/
structure Admissible (inventory : List InventoryEntry) : Prop where
  no_nul : ∀ e ∈ inventory, 0 ∉ e.name
  length_le : inventory.length ≤ maxFileCount.toNat
  size_le : ∀ e ∈ inventory, e.size ≤ Policy.default.maxFileSize
  total_le : (inventory.map fun e => e.size.toNat).sum ≤ Policy.default.maxTotalSize.toNat

/-- The manifest of an admissible inventory is well formed, and counts its entries. -/
lemma Admissible.wf_unsignedManifest {inventory : List InventoryEntry}
    (h : Admissible inventory) {entries : List FileEntry}
    (he : entriesFrom inventory = .ok entries) (sessionId : Arr 16) (salt : Arr 32)
    (nonce : Arr 24) (params : DhowSessionParams) :
    (unsignedManifest sessionId salt nonce params entries).Wf := by
  obtain ⟨hentries, hnames⟩ := entriesFrom_eq_ok h.no_nul he
  have hle : entries.length ≤ maxFileCount.toNat := by
    rw [← List.length_map, hentries]
    exact h.length_le
  have hcount : (UInt32.ofNat entries.length).toNat = entries.length :=
    UInt32.toNat_ofNat_of_lt' (hle.trans_lt (by decide))
  refine ⟨?_, hcount, hnames⟩
  change UInt32.ofNat entries.length ≤ maxFileCount
  rw [UInt32.le_iff_toNat_le, hcount]
  exact hle

/-- A manifest of an admissible inventory can be built. -/
lemma exists_build (ed : Ed25519) (identity : ed.IdentityKey) (sessionId : Arr 16)
    (salt : Arr 32) (nonce : Arr 24) (params : DhowSessionParams)
    {inventory : List InventoryEntry} (h : Admissible inventory) {entries : List FileEntry}
    (he : entriesFrom inventory = .ok entries) : ∃ manifest,
      dhowManifestBuild ed identity sessionId salt nonce params inventory = .ok manifest := by
  have hwf := h.wf_unsignedManifest he sessionId salt nonce params
  have hparse := Manifest.fromBytes_eq_ok_iff.mpr ⟨hwf.build _, signManifest_eq ed identity _⟩
  simp only [dhowManifestBuild, he, hparse, Except.ok.injEq, exists_eq']

/-- A manifest that was built of an admissible inventory and valid parameters verifies, and says
what was signed. -/
lemma verify_of_build {ed : Ed25519} (hed : ed.Correct) {identity : ed.IdentityKey}
    {sessionId : Arr 16} {salt : Arr 32} {nonce : Arr 24} {params : DhowSessionParams}
    {inventory : List InventoryEntry} {manifest : DhowManifest}
    (hbuild : dhowManifestBuild ed identity sessionId salt nonce params inventory = .ok manifest)
    (hinv : Admissible inventory) (hparams : params.toSessionParams.Valid)
    {session : Option (Arr 16)} (hsession : ∀ expected, session = some expected →
      sessionId = expected) :
    ∃ v, verifyManifestWith ed (ed.publicOf identity) manifest.bytes session .default = .ok v ∧
      manifestFields v.manifest = ⟨sessionId, salt, nonce, params, inventory⟩ ∧
      v.manifest.header.params = params.toSessionParams ∧ v.manifest = manifest.manifest := by
  unfold dhowManifestBuild at hbuild
  cases he : entriesFrom inventory with
  | error e => simp [he] at hbuild
  | ok entries =>
    simp only [he] at hbuild
    obtain ⟨hentries, hnames⟩ := entriesFrom_eq_ok hinv.no_nul he
    set m := unsignedManifest sessionId salt nonce params entries
    have hwf : m.Wf := hinv.wf_unsignedManifest he sessionId salt nonce params
    have hsizes : (entries.map fun e => e.size.toNat) = inventory.map fun e => e.size.toNat := by
      rw [← hentries, List.map_map]
      rfl
    have htotal : (entries.map FileEntry.size).sum.toNat =
        (entries.map fun e => e.size.toNat).sum := by
      apply (toNat_sum_size_iff entries).mpr
      rw [hsizes]
      exact hinv.total_le.trans_lt (by decide)
    have hadmits : Policy.default.Admits m := by
      refine ⟨(SessionParams.validate_eq_ok_iff _).mpr hparams, hwf.fileCount_le,
        hwf.fileCount_eq, ?_, ?_, htotal⟩
      · rw [UInt64.le_iff_toNat_le]
        change (entries.map FileEntry.size).sum.toNat ≤ _
        rw [htotal, hsizes]
        exact hinv.total_le
      · intro e hmem
        refine ⟨hnames e hmem, hinv.size_le e.toInventory ?_⟩
        rw [← hentries]
        exact List.mem_map_of_mem hmem
    obtain ⟨v, hv, hvm⟩ := verifyManifestWith_signManifest hed identity hwf hsession hadmits
    have hparse : Manifest.fromBytes (signManifest ed identity m) = .ok v.manifest :=
      Manifest.fromBytes_eq_ok_iff.mpr
        ⟨(verifyManifestWith_eq_ok_iff.mp hv).1, (verifyManifestWith_eq_ok_iff.mp hv).2.1⟩
    rw [hparse] at hbuild
    simp only [Except.ok.injEq] at hbuild
    subst hbuild
    refine ⟨v, hv, ?_, ?_, rfl⟩
    · rw [hvm]
      simp only [manifestFields, Manifest.build, ManifestHeader.setSignature]
      rw [← hentries]
      rfl
    · rw [hvm]
      rfl

/-! ### What the packer and the encoder give -/

/-- The inventory of a list of files. -/
def inventoryFor (b3 : Blake3) (files : List (Path Component × File)) : List InventoryEntry :=
  files.map fun x => ⟨relName x.1, UInt64.ofNat x.2.content.length, blake3Digest b3 x.2.content,
    x.2.executable⟩

lemma inventoryOf_create {b3 : Blake3} {fs : FileTree} {root : Path Component} {payload : Str}
    {entries : List Pack.Entry} (h : Pack.create b3 fs root = .ok (payload, entries)) :
    inventoryOf entries = inventoryFor b3 (Pack.sorted (fs.walk root)) := by
  obtain ⟨-, -, rfl⟩ := Pack.create_eq_ok h
  rw [inventoryOf, List.map_map]
  rfl

/-- What the packer accepts, policy accepts. -/
lemma admissible_inventoryFor (b3 : Blake3) {files : List (Path Component × File)}
    (h : Pack.PackableAll files) : Admissible (inventoryFor b3 files) := by
  have hsize : ∀ x ∈ files, (UInt64.ofNat x.2.content.length).toNat = x.2.content.length := by
    intro x hx
    exact UInt64.toNat_ofNat_of_lt' ((h.each x hx).size_le.trans_lt (by decide))
  refine ⟨?_, ?_, ?_, ?_⟩
  · intro e he
    obtain ⟨x, hx, rfl⟩ := List.mem_map.mp he
    exact Pack.zero_notMem_of_validateName (h.each x hx).name_valid
  · rw [inventoryFor, List.length_map]
    exact h.length_le
  · intro e he
    obtain ⟨x, hx, rfl⟩ := List.mem_map.mp he
    rw [UInt64.le_iff_toNat_le]
    exact (hsize x hx).le.trans (h.each x hx).size_le
  · have hsum : (inventoryFor b3 files).map (fun e => e.size.toNat) =
        files.map fun x => x.2.content.length := by
      rw [inventoryFor, List.map_map]
      exact List.map_congr_left hsize
    rw [hsum]
    exact h.totalSize_le

lemma encoderSession_eq_ok {b3 : Blake3} {aead : Aead} {key : Arr 32} {sessionId : Arr 16}
    {salt : Arr 32} {nonce : Arr 24} {paramsIn : DhowSessionParams} {payload ciphertext : Str}
    {p : Pipeline}
    (h : encoderSession b3 aead key sessionId salt nonce paramsIn payload = .ok (p, ciphertext)) :
    ∃ keys, TransferKeys.derive b3 key salt = .ok keys ∧
      encryptPayload aead keys nonce sessionId payload = .ok ciphertext ∧
      Pipeline.new sessionId (paramsIn.resolved b3 ciphertext).toSessionParams keys.sessionKey =
        .ok p := by
  unfold encoderSession at h
  cases hk : TransferKeys.derive b3 key salt with
  | error e => simp [hk] at h
  | ok keys =>
    cases hc : encryptPayload aead keys nonce sessionId payload with
    | error e => simp [hk, hc] at h
    | ok c =>
      cases hp : Pipeline.new sessionId (paramsIn.resolved b3 c).toSessionParams
          keys.sessionKey with
      | error e => simp [hk, hc, hp] at h
      | ok q =>
        simp only [hk, hc, hp, Except.ok.injEq, Prod.mk.injEq] at h
        obtain ⟨rfl, rfl⟩ := h
        exact ⟨keys, rfl, hc, hp⟩

lemma dhowEncoderNew_eq_ok {b3 : Blake3} {aead : Aead} {rq : RaptorQ} {key : Arr 32}
    {sessionId : Arr 16} {salt : Arr 32} {nonce : Arr 24} {paramsIn : DhowSessionParams}
    {payload : Str} {encoder : DhowEncoder}
    (h : dhowEncoderNew b3 aead rq key sessionId salt nonce paramsIn payload = .ok encoder) :
    ∃ p ciphertext,
      encoderSession b3 aead key sessionId salt nonce paramsIn payload = .ok (p, ciphertext) ∧
      p.encodeToBytes b3 rq ciphertext = .ok encoder.frames ∧
      encoder.params = paramsIn.resolved b3 ciphertext := by
  unfold dhowEncoderNew at h
  cases hs : encoderSession b3 aead key sessionId salt nonce paramsIn payload with
  | error e => simp [hs] at h
  | ok s =>
    cases hf : s.1.encodeToBytes b3 rq s.2 with
    | error e => simp [hs, hf] at h
    | ok frames =>
      simp only [hs, hf, Except.ok.injEq] at h
      subst h
      exact ⟨s.1, s.2, rfl, hf, rfl⟩

/-- An encoder's parameters are valid. -/
lemma valid_of_dhowEncoderNew {b3 : Blake3} {aead : Aead} {rq : RaptorQ} {key : Arr 32}
    {sessionId : Arr 16} {salt : Arr 32} {nonce : Arr 24} {paramsIn : DhowSessionParams}
    {payload : Str} {encoder : DhowEncoder}
    (h : dhowEncoderNew b3 aead rq key sessionId salt nonce paramsIn payload = .ok encoder) :
    encoder.params.toSessionParams.Valid := by
  obtain ⟨p, ciphertext, hs, -, hp⟩ := dhowEncoderNew_eq_ok h
  obtain ⟨keys, -, -, hnew⟩ := encoderSession_eq_ok hs
  rw [hp, ← (Pipeline.new_eq_ok hnew).2.1]
  exact p.params_validated

end Dhow
