import Dhow.Inspect
import Dhow.ReferenceTransfer
import Dhow.Transfer

/-!
# A transfer from end to end

What the sending command sends, the receiving command accepts and turns into the same dataset.
-/

namespace Dhow
open Bytes FileSystem

/-! ### Sending -/

/-- The stages of the sending command, and what each of them gives. -/
structure Sends {ed : Ed25519} (b3 : Blake3) (aead : Aead) (rq : RaptorQ) (s : Sender ed)
    (flags : SendFlags) (fs : FileTree) (root : Path Component) (payload : Str)
    (entries : List Pack.Entry) (params : DhowSessionParams) (encoder : DhowEncoder)
    (manifest : DhowManifest) : Prop where
  packs : Pack.create b3 fs root = .ok (payload, entries)
  plans : planSession payload.length flags.symbolSize flags.blocks flags.overheadPct = .ok params
  encodes : dhowEncoderNew b3 aead rq s.key s.sessionId s.salt s.nonce params payload =
    .ok encoder
  signs : dhowManifestBuild ed s.identity s.sessionId s.salt s.nonce encoder.params
    (inventoryOf entries) = .ok manifest

section Sends
variable {ed : Ed25519} {b3 : Blake3} {aead : Aead} {rq : RaptorQ} {s : Sender ed}
  {flags : SendFlags} {fs : FileTree} {root : Path Component} {payload : Str}
  {entries : List Pack.Entry} {params : DhowSessionParams} {encoder : DhowEncoder}
  {manifest : DhowManifest}

/-- The sending command runs its stages on a directory. -/
lemma runSend_of_sends (hroot : fs.lookup root = some .dir)
    (h : Sends b3 aead rq s flags fs root payload entries params encoder manifest) :
    runSend b3 aead rq s flags fs root = .ok ⟨encoder.frames, manifest.bytes⟩ := by
  simp only [runSend, hroot, h.packs, h.plans, h.encodes, h.signs]

lemma Sends.admissible
    (h : Sends b3 aead rq s flags fs root payload entries params encoder manifest) :
    Admissible (inventoryOf entries) := by
  rw [inventoryOf_create h.packs]
  exact admissible_inventoryFor b3 (Pack.create_eq_ok h.packs).1

/-- The receiver's policy admits what was sent, and reads it as it was signed. -/
lemma Sends.verifies (hed : ed.Correct)
    (h : Sends b3 aead rq s flags fs root payload entries params encoder manifest)
    {session : Option (Arr 16)} (hsession : session = none ∨ session = some s.sessionId) :
    ∃ v, verifyManifestWith ed (ed.publicOf s.identity) manifest.bytes session .default = .ok v ∧
      manifestFields v.manifest =
        ⟨s.sessionId, s.salt, s.nonce, encoder.params, inventoryOf entries⟩ ∧
      v.manifest.header.params = encoder.params.toSessionParams ∧
      v.manifest = manifest.manifest := by
  apply verify_of_build hed h.signs h.admissible (valid_of_dhowEncoderNew h.encodes)
  rintro expected rfl
  rcases hsession with hs | hs
  · cases hs
  · exact (Option.some.inj hs).symm

/-- What a sender signs its receiver accepts, and reads as it was signed. -/
theorem signed_manifest_accepted (hed : ed.Correct)
    (h : Sends b3 aead rq s flags fs root payload entries params encoder manifest)
    {session : Option (Arr 16)} (hsession : session = none ∨ session = some s.sessionId) :
    ∃ v, verifyManifestWith ed (ed.publicOf s.identity) manifest.bytes session .default = .ok v ∧
      v.manifest.header.sessionId = s.sessionId ∧ v.manifest.header.salt = s.salt ∧
      v.manifest.header.nonce = s.nonce ∧
      v.manifest.header.params = encoder.params.toSessionParams ∧
      v.manifest.entries.map FileEntry.toInventory = inventoryOf entries := by
  obtain ⟨v, hv, hfields, hparams, -⟩ := h.verifies hed hsession
  exact ⟨v, hv, congrArg Transfer.sessionId hfields, congrArg Transfer.salt hfields,
    congrArg Transfer.nonce hfields, hparams, congrArg Transfer.inventory hfields⟩

theorem signed_manifest_accepted_reference : ∃ manifest : DhowManifest, ∃ v,
    verifyManifestWith Reference.ed Reference.sender.identity manifest.bytes
      (some Reference.sender.sessionId) .default = .ok v ∧
    v.manifest.header.salt = Reference.sender.salt := by
  obtain ⟨payload, entries, encoder, manifest, -, hpacks, hplans, hencodes, hsigns⟩ :=
    Reference.exists_sent
  obtain ⟨v, hv, -, hsalt, -⟩ := signed_manifest_accepted Reference.ed_correct
    ⟨hpacks, hplans, hencodes, hsigns⟩ (.inr rfl)
  exact ⟨manifest, v, hv, hsalt⟩

end Sends

/-! ### Receiving -/

section Transfer
variable {ed : Ed25519} {b3 : Blake3} {aead : Aead} {rq : RaptorQ} {s : Sender ed}
  {flags : SendFlags} {fs : FileTree} {root : Path Component} {payload : Str}
  {entries : List Pack.Entry} {params : DhowSessionParams} {encoder : DhowEncoder}
  {manifest : DhowManifest}

/-- The entries of an archive agree with the inventory of its files. -/
lemma reconcile_inventoryFor (b3 : Blake3) {files : List (Path Component × File)}
    (hall : Pack.PackableAll files) :
    reconcile (files.map Pack.Entry.ofFile) (inventoryFor b3 files) = .ok () := by
  rw [reconcile_eq_ok_iff, inventoryFor, List.forall₂_map_left_iff, List.forall₂_map_right_iff,
    List.forall₂_same]
  intro x hx
  refine ⟨rfl, (UInt64.toNat_ofNat_of_lt' ?_).symm, rfl⟩
  exact (hall.each x hx).size_le.trans_lt (by decide)

/-- A directory that holds the files has no problem against their inventory. -/
lemma Holds.inspectDataset_eq_nil {umask : UInt32} (hu : umask &&& 0o700 = 0) {out : FileTree}
    {dir : Path Component} {files : List (Path Component × File)} (h : Holds umask out dir files)
    (hall : Pack.PackableAll files) :
    (inspectDataset b3 out dir (inventoryFor b3 files)).1 = [] := by
  apply Dhow.inspectDataset_eq_nil h.directory
  · intro e he
    obtain ⟨x, hx, rfl⟩ := List.mem_map.mp he
    refine ⟨x.1, _, rfl, h.has x hx, ?_, Pack.executable_extractedFile hu x.2, rfl⟩
    exact (UInt64.toNat_ofNat_of_lt' ((hall.each x hx).size_le.trans_lt (by decide))).symm
  · intro p f hl
    by_cases hp : p = []
    · rw [hp, List.append_nil, h.directory] at hl
      cases hl
    · obtain ⟨x, hx, -, hn⟩ := h.only p _ hp hl
      by_cases hpx : p = x.1
      · exact ⟨_, List.mem_map_of_mem hx, by rw [hpx]⟩
      · rw [if_neg hpx] at hn
        cases hn

/-- A transfer from end to end: a receiver with the sender's key and public identity who is shown
every emitted frame, in any order and number and amid strings that its decoder refuses, ends with
the dataset that was sent, and `verify` has nothing to say against it. -/
theorem transfer_endToEnd (hed : ed.Correct) (haead : aead.Correct)
    (hroot : fs.lookup root = some .dir)
    (h : Sends b3 aead rq s flags fs root payload entries params encoder manifest)
    (hrq : ∀ p c, encoderSession b3 aead s.key s.sessionId s.salt s.nonce params payload =
      .ok (p, c) → p.RaptorQIdeal rq c)
    {r : Receiver ed} (hkey : r.key = s.key) (hsigner : r.signer = ed.publicOf s.identity)
    (hu : r.umask &&& 0o700 = 0) {dst : FileTree} {outDir : Path Component}
    (hready : Ready dst outDir r.random) {captured : List Str} (hall : encoder.frames ⊆ captured)
    (hamid : ∀ transfer dec, startReceiver ed b3 rq r.key r.signer manifest.bytes =
      .ok (transfer, dec) → FramesAmidRejects b3 dec encoder.frames captured) :
    ∃ extracted out,
      runRecv b3 aead rq r manifest.bytes captured dst outDir = (.ok extracted, out) ∧
      (∀ p, (out.lookup (outDir ++ p)).bind nodeView = (fs.lookup (root ++ p)).bind nodeView) ∧
      (∀ p ≠ [], out.lookup (outDir ++ p) = some .dir → ∃ x ∈ fs.walk root, p <+: x.1 ∧ p ≠ x.1) ∧
      (inspectDataset b3 out outDir (manifestFields manifest.manifest).inventory).1 = [] := by
  obtain ⟨hpack, hpayload, -⟩ := Pack.create_eq_ok h.packs
  have hfiles : ∀ x, x ∈ Pack.sorted (fs.walk root) ↔ x ∈ fs.walk root :=
    fun x => (Pack.sorted_perm _).mem_iff
  obtain ⟨out, hextract, hholds⟩ := extractAtomically_spec r.umask hready hpack
    (Pack.prefixFree_sorted fs root)
    fun x hx => Pack.ne_nil_of_mem_walk hroot ((hfiles x).mp hx)
  rw [← hpayload] at hextract
  have hinventory := inventoryOf_create h.packs
  have hrun := runRecv_of_captured hed haead h.encodes h.signs h.admissible hrq hkey hsigner hall
    hamid hextract
  rw [hinventory, reconcile_inventoryFor b3 hpack] at hrun
  obtain ⟨v, -, hfields, -, hv⟩ := h.verifies hed (.inl (rfl : (none : Option (Arr 16)) = none))
  refine ⟨_, out, hrun, hholds.view_eq hu hroot hfiles,
    fun p hp => hholds.directories hfiles hp, ?_⟩
  rw [← hv, hfields, hinventory]
  exact hholds.inspectDataset_eq_nil hu hpack

end Transfer

namespace Reference

def receiver : Receiver ed := ⟨sender.key, sender.identity, 0o022, run⟩

lemma ready : Ready emptyDir [note] receiver.random := by
  refine ⟨rfl, fun q _ n hn => ?_, fun base hbase => ?_⟩
  · unfold emptyDir Fs.lookup at hn
    split_ifs at hn
    · exact (Option.some.inj hn).symm
    · by_cases hq : [top] = q
      · simpa [hq, eq_comm] using hn
      · simp [hq] at hn
  · rw [List.getLast?_singleton, Option.some.injEq] at hbase
    rw [← hbase]
    rfl

/-- The archive of the reference tree is extracted. -/
lemma exists_extracted : ∃ out, extractAtomically 0o022 run emptyDir
    (Pack.header files.length ++ files.flatMap Pack.packed) [note] =
      (.ok (files.map Pack.Entry.ofFile), out) ∧ Holds 0o022 out [note] files := by
  apply extractAtomically_spec 0o022 ready packableAll_files
  · exact Pack.prefixFree_sorted tree [top]
  · intro x hx
    simp only [files, List.mem_cons, List.not_mem_nil, or_false] at hx
    rcases hx with rfl | rfl <;> simp

lemma ideal_session {payload : Str} (hlen : payload.length = 114) {p : Pipeline} {c : Str}
    (h : encoderSession b3 XChaCha20Poly1305.aead sender.key sender.sessionId sender.salt
      sender.nonce (planOf 64 3) payload = .ok (p, c)) : p.RaptorQIdeal rq c := by
  obtain ⟨keys, -, hc, hnew⟩ := encoderSession_eq_ok h
  obtain ⟨-, hparams, -⟩ := Pipeline.new_eq_ok hnew
  have hclen : c.length = 130 := by
    rw [(decryptPayloadInPlace_of_encryptPayload XChaCha20Poly1305.aead_correct hc).1, hlen]
    rfl
  have hsize : p.chunkMap.params.payloadSize = 130 := by
    rw [p.chunkMap_params.1, hparams]
    change (UInt64.ofNat c.length).toNat = 130
    rw [hclen]
    rfl
  apply Systematic.raptorQIdeal (hclen.trans hsize.symm)
  intro block hb
  obtain ⟨i, hi⟩ := List.mem_iff_getElem?.mp hb
  have hend := p.chunkMap.block_end_le hi
  have hcount : (p.config rq block : Systematic.Config).symbolCount = (block.size + 63) / 64 := by
    have haligned : (64 : UInt32).toUInt16.toNat - (64 : UInt32).toUInt16.toNat % 8 = 64 := by
      decide
    have hconfig : p.config rq block = (⟨block.size, 64⟩ : Systematic.Config) := by
      rw [Pipeline.config, hparams, ← haligned]
      rfl
    rw [hconfig]
    rfl
  have hrepair : p.repairCount = 4 := by
    rw [Pipeline.repairCount, hparams]
    rfl
  rw [hcount, hrepair]
  omega

/-- The reference transfer comes to the comparison, whatever inventory is signed with it. -/
lemma exists_received {inventory : List InventoryEntry} (hinv : Admissible inventory)
    (hnames : ∀ e ∈ inventory, e.name = asBytes "a-b" ∨ e.name = asBytes "a/b") :
    ∃ frames manifest v out,
      verifyManifestWith ed receiver.signer manifest none .default = .ok v ∧
      (manifestFields v.manifest).inventory = inventory ∧ Holds 0o022 out [note] files ∧
      runRecv b3 XChaCha20Poly1305.aead rq receiver manifest frames emptyDir [note] =
        match reconcile (files.map Pack.Entry.ofFile) inventory with
        | .error e => (.error (.reconciling e), out)
        | .ok () => (.ok (files.map Pack.Entry.ofFile), out) := by
  obtain ⟨payload, entries, encoder, -, hlen, hpacks, -, hencodes, -⟩ := exists_sent
  obtain ⟨manifest, hsigns⟩ := exists_manifest encoder.params hinv hnames
  obtain ⟨out, hextract, hholds⟩ := exists_extracted
  have hpayload := (Pack.create_eq_ok hpacks).2.1
  rw [sorted_walk] at hpayload
  rw [← hpayload] at hextract
  have hnone : ∀ expected, (none : Option (Arr 16)) = some expected →
      sender.sessionId = expected := by
    intro expected h
    cases h
  obtain ⟨v, hv, hfields, -⟩ := verify_of_build ed_correct hsigns hinv
    (valid_of_dhowEncoderNew hencodes) hnone
  refine ⟨encoder.frames, manifest.bytes, v, out, hv, by rw [hfields], hholds, ?_⟩
  exact runRecv_of_captured ed_correct XChaCha20Poly1305.aead_correct hencodes hsigns hinv
    (fun p c hs => ideal_session hlen hs) (r := receiver) rfl rfl (List.Subset.refl encoder.frames)
    (fun _ dec _ pre bytes post he => .inl (he ▸ by simp)) hextract

end Reference

theorem transfer_endToEnd_reference : ∃ frames manifest extracted out,
    runSend Reference.b3 XChaCha20Poly1305.aead Reference.rq Reference.sender Reference.flags
      Reference.tree [Reference.top] = .ok ⟨frames, manifest⟩ ∧
    runRecv Reference.b3 XChaCha20Poly1305.aead Reference.rq Reference.receiver manifest
      ([] :: (frames.reverse ++ frames)) Reference.emptyDir [Reference.note] =
        (.ok extracted, out) ∧
    ∀ p, (out.lookup (Reference.note :: p)).bind nodeView =
      (Reference.tree.lookup (Reference.top :: p)).bind nodeView := by
  obtain ⟨payload, entries, encoder, manifest, hlen, hpacks, hplans, hencodes, hsigns⟩ :=
    Reference.exists_sent
  have h : Sends Reference.b3 XChaCha20Poly1305.aead Reference.rq Reference.sender Reference.flags
      Reference.tree [Reference.top] payload entries (Reference.planOf 64 3) encoder manifest :=
    ⟨hpacks, hplans, hencodes, hsigns⟩
  have hall : encoder.frames ⊆ [] :: (encoder.frames.reverse ++ encoder.frames) := by simp
  obtain ⟨extracted, out, hrun, hview, -⟩ := transfer_endToEnd Reference.ed_correct
    XChaCha20Poly1305.aead_correct Reference.lookup_top h (r := Reference.receiver)
    (fun p c hs => Reference.ideal_session hlen hs) rfl rfl (by decide) Reference.ready hall
    fun _ dec _ => framesAmidRejects_nil_cons dec (by simp)
  exact ⟨encoder.frames, manifest.bytes, extracted, out,
    runSend_of_sends Reference.lookup_top h, hrun, hview⟩

end Dhow
