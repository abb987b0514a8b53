import Dhow.LeftOutput
import Dhow.EndToEnd

/-!
# No output of a failed receive

A receive that fails leaves nothing at `-out`, unless the archive disagrees with the inventory, the
destination is written without a name at its end, or the state directory makes it.
-/

namespace Dhow.Reference
open Bytes FileSystem

/-- The inventory of the reference tree with no executable bit right. -/
def mismarked : List InventoryEntry :=
  (inventoryFor b3 files).map fun e => { e with executable := !e.executable }

lemma admissible_mismarked : Admissible mismarked := by
  obtain ⟨hnul, hlen, hsize, htotal⟩ := admissible_inventoryFor b3 packableAll_files
  refine ⟨?_, ?_, ?_, ?_⟩
  · intro e he
    obtain ⟨e', he', rfl⟩ := List.mem_map.mp he
    exact hnul e' he'
  · rw [mismarked, List.length_map]
    exact hlen
  · intro e he
    obtain ⟨e', he', rfl⟩ := List.mem_map.mp he
    exact hsize e' he'
  · rw [mismarked, List.map_map]
    exact htotal

lemma names_mismarked :
    ∀ e ∈ mismarked, e.name = asBytes "a-b" ∨ e.name = asBytes "a/b" := by
  intro e he
  obtain ⟨e', he', rfl⟩ := List.mem_map.mp he
  exact names_inventoryFor e' he'

lemma reconcile_mismarked :
    ∃ e, reconcile (files.map Pack.Entry.ofFile) mismarked = .error e := by
  cases hr : reconcile (files.map Pack.Entry.ofFile) mismarked with
  | error e => exact ⟨e, rfl⟩
  | ok _ =>
    have hagrees := reconcile_eq_ok_iff.mp hr
    cases hagrees with
    | cons h _ => exact absurd h.executable_eq (by decide)

/-- The reference receiver, into `a-b` below the root. -/
def command (source : Host.Source) : Host.Command ed where
  toReceiver := receiver
  cwd := []
  outDir := relName [note]
  stateDir := []
  saveEvery := 200
  stopAfter := 0
  keepState := false
  source := source
  interrupt := none
  saveEvery_pos := by decide

lemma plain_command (frames : List Str) : (command (.files frames)).Plain frames [note] :=
  ⟨rfl, rfl, rfl, rfl, rfl, by simp⟩

lemma named_command (source : Host.Source) :
    Host.named (command source).cwd (command source).outDir = some [note] :=
  Host.named_relName (List.cons_ne_nil _ _)

lemma outAbsent_command (source : Host.Source) : (command source).OutAbsent emptyDir := by
  intro p hp
  rw [named_command, Option.some.injEq] at hp
  rw [← hp]
  exact ready.free

/-- Three bytes, which are no ciphertext. -/
lemma exists_short_session (sessionKey : Arr 32) : ∃ p,
    Pipeline.new sender.sessionId params.toDhow.toSessionParams sessionKey = .ok p ∧
      (PipelineDecoder.start rq p).isComplete = false :=
  ⟨_, rfl, rfl⟩

lemma exists_short_manifest : ∃ manifest v,
    verifyManifestWith ed receiver.signer manifest none .default = .ok v ∧
    manifestFields v.manifest = ⟨sender.sessionId, sender.salt, sender.nonce, params.toDhow,
      inventoryFor b3 files⟩ := by
  have hadmissible := admissible_inventoryFor b3 packableAll_files
  obtain ⟨manifest, hmanifest⟩ := exists_manifest params.toDhow hadmissible names_inventoryFor
  have hvalid : params.toDhow.toSessionParams.Valid := by
    obtain ⟨p, hp, -⟩ := exists_short_session (zeros 32)
    rw [← (Pipeline.new_eq_ok hp).2.1]
    exact p.params_validated
  have hnone : ∀ expected, (none : Option (Arr 16)) = some expected →
      sender.sessionId = expected := by
    intro expected h
    cases h
  obtain ⟨v, hv, hfields, -⟩ := verify_of_build ed_correct hmanifest hadmissible hvalid hnone
  exact ⟨manifest.bytes, v, hv, hfields⟩

lemma startReceiver_short {manifest : Str} {v : VerifiedManifest ed}
    (hv : verifyManifestWith ed receiver.signer manifest none .default = .ok v)
    (hfields : manifestFields v.manifest = ⟨sender.sessionId, sender.salt, sender.nonce,
      params.toDhow, inventoryFor b3 files⟩) :
    ∃ dec, startReceiver ed b3 rq receiver.key receiver.signer manifest =
      .ok (manifestFields v.manifest, dec) ∧ dec.isComplete = false := by
  obtain ⟨keys, hkeys⟩ := TransferKeys.exists_derive b3 receiver.key sender.salt
  obtain ⟨p, hp, hcomplete⟩ := exists_short_session keys.sessionKey
  rw [hfields]
  exact ⟨_, startReceiver_of_verified hv hfields hkeys hp, hcomplete⟩

section Short
variable {manifest : Str} {v : VerifiedManifest ed} {c : Host.Command ed}
  (hv : verifyManifestWith ed receiver.signer manifest none .default = .ok v)
  (hfields : manifestFields v.manifest = ⟨sender.sessionId, sender.salt, sender.nonce,
    params.toDhow, inventoryFor b3 files⟩)
include hv hfields

/-- No ciphertext of three bytes decrypts. -/
lemma not_signed_short {transfer : Transfer} {dec : PipelineDecoder rq} {key : Arr 32}
    {archive : Str}
    (hstart : startReceiver ed b3 rq receiver.key receiver.signer manifest = .ok (transfer, dec)) :
    ¬Host.SignedArchive b3 XChaCha20Poly1305.aead key transfer archive := by
  obtain ⟨dec', hstart', -⟩ := startReceiver_short hv hfields
  rw [hstart', Except.ok.injEq, Prod.mk.injEq, hfields] at hstart
  obtain ⟨rfl, -⟩ := hstart
  rintro ⟨ciphertext, keys, hlen, -, -, hdecrypt⟩
  have hshort : ciphertext.length < tagLen := by
    rw [hlen]
    decide
  rw [decryptPayloadInPlace, if_pos hshort] at hdecrypt
  cases hdecrypt

/-- A receiver that sees no image, and a manifest of three bytes. -/
lemma sound_short :
    (command (.images [])).Sound b3 XChaCha20Poly1305.aead rq manifest := by
  refine ⟨fun _ _ _ hstate => absurd rfl hstate, fun transfer _ _ haims hsigned => ?_,
    fun transfer _ _ _ haims hsigned => ?_⟩
  all_goals
    obtain ⟨dec, hstart⟩ := haims.starts
    exact absurd hsigned (not_signed_short hv hfields hstart)

/-- Three bytes are sent as the systematic code has them. -/
lemma carries_short (hkey : c.key = receiver.key) (hsigner : c.signer = receiver.signer)
    (hstate : c.stateDir ≠ [] → Host.StateUsable c.cwd c.stateDir c.outDir) :
    c.Carries b3 rq manifest := by
  refine ⟨fun transfer dec ciphertext hstart hlen _ => ?_, hstate⟩
  obtain ⟨dec', hstart', -⟩ := startReceiver_short hv hfields
  obtain ⟨p, rfl, hparams⟩ := Host.of_startReceiver hstart
  rw [hkey, hsigner, hstart', Except.ok.injEq, Prod.mk.injEq, hfields] at hstart
  obtain ⟨rfl, -⟩ := hstart
  have hpayload : ciphertext.length = p.chunkMap.params.payloadSize := by
    rw [hlen, p.chunkMap_params.1, hparams]
    rfl
  have hmap : p.chunkMap = chunkMap := by
    have hcongr : chunkMapFor p.params = chunkMapFor params := by
      rw [hparams]
      exact chunkMapFor_congr rfl rfl rfl
    exact Except.ok.inj ((p.chunkMap_eq.symm.trans hcongr).trans pipeline.chunkMap_eq)
  obtain ⟨frames, hframes⟩ := Pipeline.exists_encode hpayload fun block _ packet hpacket =>
    Systematic.length_serialize_le hpacket
  have hencode : p.encodeToBytes b3 rq ciphertext = .ok (frames.map fun f => f.frame.toVec) := by
    rw [Pipeline.encodeToBytes, hframes]
  refine ⟨_, hencode, Systematic.raptorQIdeal hpayload ?_⟩
  change ∀ block ∈ p.chunkMap.blocks, (p.config rq block : Systematic.Config).symbolCount +
    p.repairCount ≤ 2 ^ 24
  rw [hmap]
  unfold Pipeline.config Pipeline.repairCount
  rw [hparams]
  decide

end Short

/-- The reference receiver with its state directory where the output is to be. -/
def commandInPlace : Host.Command ed := { command (.images []) with stateDir := relName [note] }

lemma dirsAlong_note : Host.dirsAlong (Host.startOf [] (relName [note]))
    ((relName [note]).splitOn slash) = some [[note]] := by
  rw [Host.startOf_relName (by simp), splitOn_relName (by simp)]
  rfl

lemma stateUsable_inPlace : Host.StateUsable [] (relName [note]) (relName [note]) := by
  refine ⟨_, [note], dirsAlong_note, Host.named_relName (by simp), fun name _ => ⟨by simp, by simp,
    fun way hway => ?_⟩⟩
  rw [Host.wayTo, splitOn_relName (by simp)] at hway
  cases hway
  simp

end Dhow.Reference

namespace Dhow.Host
open Bytes FileSystem

section NoOutput
variable {ed : Ed25519} {b3 : Blake3} {aead : Aead} {rq : RaptorQ}

/-- If what it is to receive, from where and into which directories is sound, no failed receive
leaves anything at `-out`, whatever comes over the link and whatever system calls fail. Otherwise one
does, if what it receives can come over the link and its state directory can be used. -/
theorem failed_receive_leaves_no_output (c : Command ed) (manifest : Str) :
    (c.Sound b3 aead rq manifest → c.LeavesNothing b3 aead rq manifest) ∧
    (c.Carries b3 rq manifest →
      (c.LeavesNothing b3 aead rq manifest ↔ c.Sound b3 aead rq manifest)) :=
  ⟨Command.Sound.leavesNothing, fun hcarries =>
    ⟨sound_of_leavesNothing hcarries, Command.Sound.leavesNothing⟩⟩

theorem failed_receive_leaves_no_output_reference : ∃ manifest v w',
    verifyManifestWith Reference.ed Reference.receiver.signer manifest none .default = .ok v ∧
    runRecv Reference.b3 XChaCha20Poly1305.aead Reference.rq (Reference.command (.images []))
      manifest ⟨Reference.emptyDir, []⟩ = (.error .incomplete, w') ∧
    (Reference.command (.images [])).OutAbsent w'.fs ∧
    ¬Reference.commandInPlace.LeavesNothing Reference.b3 XChaCha20Poly1305.aead Reference.rq
      manifest := by
  obtain ⟨manifest, v, hv, hfields⟩ := Reference.exists_short_manifest
  obtain ⟨dec, hstart, hcomplete⟩ := Reference.startReceiver_short hv hfields
  have hreceive : ∀ sink : FrameSink Reference.rq, receive Reference.b3 none sink (.images []) =
      deliver Reference.b3 none sink [] := fun _ => rfl
  obtain ⟨sink, fs, hdec, -, hleft, hrun⟩ := runRecv_of_frames (c := Reference.command (.images []))
    XChaCha20Poly1305.aead Reference.emptyDir hstart hreceive rfl (absurd rfl) (absurd rfl)
  obtain rfl := hleft.same rfl
  have hends : runRecv Reference.b3 XChaCha20Poly1305.aead Reference.rq
      (Reference.command (.images [])) manifest ⟨Reference.emptyDir, []⟩ =
        (.error .incomplete, ⟨Reference.emptyDir, []⟩) := by
    rw [hrun, hdec]
    refine Sys.bind_of_fails ?_
    rw [List.foldl_nil, finish, hcomplete]
    rfl
  have hapart := (failed_receive_leaves_no_output (Reference.command (.images [])) manifest).1
    (Reference.sound_short hv hfields)
  refine ⟨manifest, v, _, hv, hends, hapart _ ⟨rfl, rfl, rfl, rfl, rfl⟩ _ _ _ rfl
    (Reference.outAbsent_command _) hends (.inr (.inl rfl)), fun h => ?_⟩
  have hsound := ((failed_receive_leaves_no_output Reference.commandInPlace manifest).2
    (Reference.carries_short hv hfields rfl rfl fun _ => Reference.stateUsable_inPlace)).mp h
  have haims : Reference.commandInPlace.Aims Reference.b3 Reference.rq manifest
      (manifestFields v.manifest) [Reference.note] :=
    ⟨⟨dec, hstart⟩, named_relName (List.cons_ne_nil _ _),
      by simp [Reference.commandInPlace, Reference.command]⟩
  have hstate := hsound.state _ _ haims (relName_ne (p := [Reference.note]) (by simp)).1
  exact hstate.dirs _ Reference.dirsAlong_note (by simp)

end NoOutput

/-- A signed manifest whose executable bits are wrong: the comparison fails after the rename, and
the dataset stays where the destination is. -/
theorem failed_receive_leaves_output : ∃ frames manifest v e w',
    verifyManifestWith Reference.ed (Reference.command (.files frames)).signer manifest none .default =
      .ok v ∧
    (Reference.command (.files frames)).OutAbsent Reference.emptyDir ∧
    runRecv Reference.b3 XChaCha20Poly1305.aead Reference.rq (Reference.command (.files frames)) manifest
      ⟨Reference.emptyDir, []⟩ = (.error e, w') ∧
    e.Failed ∧ ¬(Reference.command (.files frames)).OutAbsent w'.fs := by
  obtain ⟨frames, manifest, v, out, hv, -, hholds, hrun⟩ :=
    Reference.exists_received Reference.admissible_mismarked Reference.names_mismarked
  obtain ⟨e, hreconcile⟩ := Reference.reconcile_mismarked
  simp only [hreconcile] at hrun
  refine ⟨frames, manifest, v, .reconciling e, ⟨out, []⟩, hv,
    Reference.outAbsent_command _,
    runRecv_of_reconciling (Reference.plain_command frames) hrun,
    .inr (.inr (.inr ⟨e, rfl⟩)), fun habsent => ?_⟩
  have hnone := habsent _ (Reference.named_command _)
  rw [hholds.directory] at hnone
  cases hnone

end Dhow.Host
