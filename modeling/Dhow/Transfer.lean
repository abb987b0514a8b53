import Dhow.Archive
import Dhow.Delivery
import Dhow.Signing

/-!
# Transfers

A receiver with the sender's key and public identity who is shown every emitted frame, whatever
else it is shown that its decoder refuses, comes to extract the sender's archive.
-/

namespace Dhow
open Bytes FileSystem

/-! ### Frames amid refused strings -/

section Receives
variable {rq : RaptorQ} {b3 : Blake3}

/-- A string the decoder refuses: with an error, or with a panic that leaves the blocks. -/
def Rejects (b3 : Blake3) (d : PipelineDecoder rq) (bytes : Str) : Prop :=
  (decoderAccept b3 d bytes).1 ≠ .ok ∧
    ((decoderAccept b3 d bytes).1 = .panic → (decoderAccept b3 d bytes).2.blocks = d.blocks)

/-- Each string is one of `frames`, or is refused where it stands. -/
def FramesAmidRejects (b3 : Blake3) (d : PipelineDecoder rq) (frames captured : List Str) : Prop :=
  ∀ pre bytes post, captured = pre ++ bytes :: post →
    bytes ∈ frames ∨ Rejects b3 (d.run b3 pre) bytes

/-- The bindings' check for an empty frame refuses nothing that the decoder would take. -/
lemma decoderAccept_eq (d : PipelineDecoder rq) (bytes : Str) :
    decoderAccept b3 d bytes = d.dhowDecoderAccept b3 bytes := by
  unfold decoderAccept
  split_ifs with hnil
  · obtain ⟨e, he⟩ : ∃ e, d.screen b3 [] = .error e := ⟨_, rfl⟩
    rw [hnil, PipelineDecoder.dhowDecoderAccept, d.accept_of_error he]
  · rfl

lemma decoderAccept_snd (d : PipelineDecoder rq) (bytes : Str) :
    (decoderAccept b3 d bytes).2 = (d.accept b3 bytes).2 := by
  rw [decoderAccept_eq, d.dhowDecoderAccept_snd]

lemma Rejects.blocks_eq {d : PipelineDecoder rq} {bytes : Str} (h : Rejects b3 d bytes) :
    (d.accept b3 bytes).2.blocks = d.blocks := by
  rw [Rejects, decoderAccept_eq, d.dhowDecoderAccept_fst, d.dhowDecoderAccept_snd] at h
  cases hr : (d.accept b3 bytes).1 with
  | ok o => exact absurd (by rw [hr]) h.1
  | err e => rw [d.eq_of_accept_eq_err hr]
  | panic => exact h.2 (by rw [hr])

/-- The empty string is refused. -/
lemma framesAmidRejects_nil_cons (d : PipelineDecoder rq) {frames captured : List Str}
    (h : captured ⊆ frames) : FramesAmidRejects b3 d frames ([] :: captured) := by
  intro pre bytes post he
  cases pre with
  | nil =>
    rw [List.nil_append, List.cons.injEq] at he
    rw [← he.1]
    exact .inr ⟨by simp [decoderAccept], by simp [decoderAccept]⟩
  | cons b pre =>
    rw [List.cons_append, List.cons.injEq] at he
    exact .inl (h (he.2 ▸ List.mem_append_right _ List.mem_cons_self))

/-- What a call makes of the blocks depends on the session and the blocks alone. -/
lemma blocks_accept_congr {d e : PipelineDecoder rq} (hp : d.toPipeline = e.toPipeline)
    (hb : d.blocks = e.blocks) (bytes : Str) :
    (d.accept b3 bytes).2.blocks = (e.accept b3 bytes).2.blocks := by
  have hscreen : d.screen b3 bytes = e.screen b3 bytes := by rw [hp]
  cases hs : d.screen b3 bytes with
  | error err =>
    rw [d.accept_of_error hs, e.accept_of_error (hscreen ▸ hs), hb]
  | ok f =>
    apply List.ext_getElem?
    intro k
    rw [d.blocks_accept_of_ok hs, e.blocks_accept_of_ok (hscreen ▸ hs), hb]

/-- Refused strings leave no trace in the blocks. -/
lemma FramesAmidRejects.blocks_run {d : PipelineDecoder rq} {frames captured : List Str}
    (h : FramesAmidRejects b3 d frames captured) :
    (d.run b3 captured).blocks = (d.run b3 (captured.filter (· ∈ frames))).blocks := by
  induction captured using List.reverseRecOn with
  | nil => rfl
  | append_singleton captured bytes ih =>
    have hih := ih fun pre b post he => h pre b (post ++ [bytes]) (by simp [he])
    have hp : (d.run b3 captured).toPipeline =
        (d.run b3 (captured.filter (· ∈ frames))).toPipeline := by
      rw [d.run_toPipeline, d.run_toPipeline]
    by_cases hmem : bytes ∈ frames
    · have hfilter : (captured ++ [bytes]).filter (· ∈ frames) =
          captured.filter (· ∈ frames) ++ [bytes] := by simp [hmem]
      rw [hfilter, d.run_append, d.run_append]
      exact blocks_accept_congr hp hih bytes
    · have hfilter : (captured ++ [bytes]).filter (· ∈ frames) =
          captured.filter (· ∈ frames) := by simp [hmem]
      have hr := (h captured bytes [] rfl).resolve_left hmem
      rw [hfilter, d.run_append, ← hih]
      exact hr.blocks_eq

/-- Frames handed over one after the other are a run of the decoder. -/
lemma foldl_decoderAccept (d : PipelineDecoder rq) (frames : List Str) :
    frames.foldl (fun dec frame => (decoderAccept b3 dec frame).2) d = d.run b3 frames := by
  have hfold : (fun (d : PipelineDecoder rq) frame => (decoderAccept b3 d frame).2) =
      fun d frame => (d.accept b3 frame).2 := by
    funext d frame
    exact decoderAccept_snd d frame
  rw [hfold]
  rfl

/-- The receiver's loop over the frame files is a run of the decoder. -/
lemma receiveFromFrames_eq (d : PipelineDecoder rq) {captured : List Str} (h : captured ≠ []) :
    receiveFromFrames b3 d captured = .ok (d.run b3 captured) := by
  rw [receiveFromFrames, if_neg h, foldl_decoderAccept]

variable {p : Pipeline} {ciphertext : Str} {frames captured : List Str}

/-- A decoder that was offered every frame, and otherwise only what it refuses, has all blocks. -/
lemma hasBlocks_run (hf : p.encodeToBytes b3 rq ciphertext = .ok frames)
    (hi : p.RaptorQIdeal rq ciphertext) (hall : frames ⊆ captured)
    (h : FramesAmidRejects b3 (.start rq p) frames captured) :
    ((PipelineDecoder.start rq p).run b3 captured).HasBlocks ciphertext := by
  intro k block hk
  rw [PipelineDecoder.run_toPipeline] at hk
  rw [h.blocks_run]
  apply PipelineDecoder.blocks_run_of_subset hf hi _ _ hk
  · intro x hx
    simpa using (List.mem_filter.mp hx).2
  · intro x hx
    exact List.mem_filter.mpr ⟨hall hx, by simpa using hx⟩

/-- Without a frame some block of a ciphertext is missing. -/
lemma ne_nil_of_hasBlocks (hlen : ciphertext.length = p.chunkMap.params.payloadSize)
    (hne : ciphertext ≠ [])
    (h : ((PipelineDecoder.start rq p).run b3 captured).HasBlocks ciphertext) : captured ≠ [] := by
  rintro rfl
  apply hne
  rw [← p.chunkMap.flatten_blockBytes hlen, List.flatten_eq_nil_iff]
  intro bytes hbytes
  obtain ⟨block, hb, rfl⟩ := List.mem_map.mp hbytes
  obtain ⟨k, hk⟩ := List.mem_iff_getElem?.mp hb
  have hdone := h k block hk
  rw [PipelineDecoder.run_nil, PipelineDecoder.start_blocks k hk, PipelineDecoder.initialBlock]
    at hdone
  split_ifs at hdone
  · simpa using hdone.symm
  · cases hdone

end Receives

/-! ### The receiving command -/

section Transfer
variable {ed : Ed25519} {b3 : Blake3} {aead : Aead} {rq : RaptorQ} {s : Sender ed}
  {params : DhowSessionParams} {payload : Str} {encoder : DhowEncoder}
  {inventory : List InventoryEntry} {manifest : DhowManifest}

/-- A verified manifest sets up the decoder of the session it describes. -/
lemma startReceiver_of_verified {key : Arr 32} {signer : ed.PublicIdentity} {raw : Str}
    {v : VerifiedManifest ed} {transfer : Transfer} {keys : TransferKeys} {p : Pipeline}
    (hv : verifyManifestWith ed signer raw none .default = .ok v)
    (hfields : manifestFields v.manifest = transfer)
    (hkeys : TransferKeys.derive b3 key transfer.salt = .ok keys)
    (hnew : Pipeline.new transfer.sessionId transfer.params.toSessionParams keys.sessionKey =
      .ok p) : startReceiver ed b3 rq key signer raw = .ok (transfer, .start rq p) := by
  have hne : raw ≠ [] := by
    rw [(verifyManifestWith_eq_ok_iff.mp hv).2.1]
    exact List.ne_nil_of_length_pos (by simp [Manifest.toVec, manifestHeaderSize])
  have hdec : PipelineDecoder.new rq transfer.sessionId transfer.params.toSessionParams
      keys.sessionKey = .ok (.start rq p) := by
    rw [PipelineDecoder.new, hnew]
  simp only [startReceiver, readManifest, if_neg hne, hv, hfields, dhowDecoderNew, hkeys, hdec]

/-- A receiver with the sender's key sets up the decoder of the sender's session. -/
lemma startReceiver_of_build (hed : ed.Correct)
    (hencodes : dhowEncoderNew b3 aead rq s.key s.sessionId s.salt s.nonce params payload =
      .ok encoder)
    (hsigns : dhowManifestBuild ed s.identity s.sessionId s.salt s.nonce encoder.params inventory =
      .ok manifest) (hinv : Admissible inventory) :
    ∃ p ciphertext,
      encoderSession b3 aead s.key s.sessionId s.salt s.nonce params payload =
        .ok (p, ciphertext) ∧
      p.encodeToBytes b3 rq ciphertext = .ok encoder.frames ∧
      startReceiver ed b3 rq s.key (ed.publicOf s.identity) manifest.bytes =
        .ok (⟨s.sessionId, s.salt, s.nonce, encoder.params, inventory⟩, .start rq p) := by
  obtain ⟨p, ciphertext, hsession, hframes, hparams⟩ := dhowEncoderNew_eq_ok hencodes
  obtain ⟨keys, hkeys, -, hnew⟩ := encoderSession_eq_ok hsession
  have hnone : ∀ expected, (none : Option (Arr 16)) = some expected → s.sessionId = expected := by
    intro expected h
    cases h
  obtain ⟨v, hv, hfields, -⟩ :=
    verify_of_build hed hsigns hinv (valid_of_dhowEncoderNew hencodes) hnone
  refine ⟨p, ciphertext, hsession, hframes, startReceiver_of_verified hv hfields hkeys ?_⟩
  rw [hparams]
  exact hnew

/-- What the decoder of the session finishes with, the receiver's keys decrypt to the archive. -/
lemma dhowDecoderFinish_of_hasBlocks (haead : aead.Correct) {p : Pipeline} {ciphertext : Str}
    (hsession : encoderSession b3 aead s.key s.sessionId s.salt s.nonce params payload =
      .ok (p, ciphertext)) (hlen : ciphertext.length = p.chunkMap.params.payloadSize)
    {captured : List Str}
    (h : ((PipelineDecoder.start rq p).run b3 captured).HasBlocks ciphertext) :
    dhowDecoderFinish b3 aead ((PipelineDecoder.start rq p).run b3 captured) s.key s.sessionId
      s.salt s.nonce = .ok payload := by
  obtain ⟨keys, hkeys, hc, hnew⟩ := encoderSession_eq_ok hsession
  obtain ⟨-, hdecrypt⟩ := decryptPayloadInPlace_of_encryptPayload haead hc
  have hpipe : ((PipelineDecoder.start rq p).run b3 captured).toPipeline = p :=
    PipelineDecoder.run_toPipeline _ _
  have hdigest : p.params.payloadDigest = blake3Digest b3 ciphertext := by
    rw [(Pipeline.new_eq_ok hnew).2.1]
    rfl
  have hfinish : ((PipelineDecoder.start rq p).run b3 captured).finish b3 = .ok ciphertext :=
    h.finish (by rw [hpipe]; exact hlen) (by rw [hpipe]; exact hdigest)
  simp only [dhowDecoderFinish, h.isComplete, Bool.not_true, Bool.false_eq_true, if_false,
    hfinish, hkeys, hdecrypt]

/-- The receiving command on every emitted frame, in any order and number and amid strings that
the decoder refuses, goes as extracting the archive and comparing it with the inventory go. -/
lemma runRecv_of_captured (hed : ed.Correct) (haead : aead.Correct)
    (hencodes : dhowEncoderNew b3 aead rq s.key s.sessionId s.salt s.nonce params payload =
      .ok encoder)
    (hsigns : dhowManifestBuild ed s.identity s.sessionId s.salt s.nonce encoder.params inventory =
      .ok manifest) (hinv : Admissible inventory)
    (hrq : ∀ p c, encoderSession b3 aead s.key s.sessionId s.salt s.nonce params payload =
      .ok (p, c) → p.RaptorQIdeal rq c)
    {r : Receiver ed} (hkey : r.key = s.key) (hsigner : r.signer = ed.publicOf s.identity)
    {captured : List Str} (hall : encoder.frames ⊆ captured)
    (hamid : ∀ transfer dec, startReceiver ed b3 rq r.key r.signer manifest.bytes =
      .ok (transfer, dec) → FramesAmidRejects b3 dec encoder.frames captured)
    {dst out : FileTree} {outDir : Path Component} {extracted : List Pack.Entry}
    (hextract : extractAtomically r.umask r.random dst payload outDir = (.ok extracted, out)) :
    runRecv b3 aead rq r manifest.bytes captured dst outDir =
      match reconcile extracted inventory with
      | .error e => (.error (.reconciling e), out)
      | .ok () => (.ok extracted, out) := by
  obtain ⟨p, ciphertext, hsession, hframes, hstart⟩ :=
    startReceiver_of_build hed hencodes hsigns hinv
  rw [← hkey, ← hsigner] at hstart
  have hlen := Pipeline.payload_length_of_encode hframes
  have hblocks := hasBlocks_run hframes (hrq p ciphertext hsession) hall (hamid _ _ hstart)
  have hne : captured ≠ [] := by
    apply ne_nil_of_hasBlocks hlen _ hblocks
    obtain ⟨keys, -, hc, -⟩ := encoderSession_eq_ok hsession
    have hclen := (decryptPayloadInPlace_of_encryptPayload haead hc).1
    exact List.ne_nil_of_length_pos (by rw [hclen]; exact Nat.add_pos_right _ (by decide))
  have hfinish := dhowDecoderFinish_of_hasBlocks haead hsession hlen hblocks
  rw [← hkey] at hfinish
  cases hr : reconcile extracted inventory <;>
    simp only [runRecv, hstart, receiveFromFrames_eq _ hne, hblocks.isComplete, Bool.not_true,
      Bool.false_eq_true, if_false, hfinish, hextract, hr]

end Transfer
end Dhow
