import Dhow.DirectoryTransfer
import Dhow.OpticalLink

/-!
# A transfer over the screen

All three commands in a row: what was sent into a directory is displayed from it, images of the
screen are taken, and the receiving command turns them into the dataset. The receiver has the
manifest from the directory, as it has for frames.
-/

namespace Dhow
open Bytes FileSystem FrameDirectory Capture

/-! ### The commands -/

namespace Capture
variable {Image σ ε η : Type}

/-- What a run of the reader can come to: the images that its consumer was given, what it has read
and its error. -/
inductive Reader.Runs (read : Image → Option Str) (handle : Handler σ ε) (r : Reader)
    (ending : Ending η) (source : List Image) (handler : σ) :
    List Image → Reading σ → Option (RunError ε η) → Prop
  | direct (cancelled : Bool) (hb : r.buffer = false) :
    Runs read handle r ending source handler source
      (r.runDirect read handle ending cancelled source (.start handler)).1
      (r.runDirect read handle ending cancelled source (.start handler)).2
  | buffered {evs b stats err} (hb : r.buffer = true)
      (hs : r.Steps read handle ending (.start source handler) evs b)
      (hr : b.consumer = .returned stats err) :
    Runs read handle r ending source handler (imagesReceived evs) b.reading err

end Capture

/-- What the receiving command does with its decoder once the frames are taken. -/
def finishRecv {ed : Ed25519} (b3 : Blake3) (aead : Aead) {rq : RaptorQ} (r : Receiver ed)
    (transfer : Transfer) (dec : PipelineDecoder rq) (fs : FileTree) (outDir : Path Component) :
    Except ReceiveError (List Pack.Entry) × FileTree :=
  if !dec.isComplete then (.error .incomplete, fs)
  else
    match dhowDecoderFinish b3 aead dec r.key transfer.sessionId transfer.salt transfer.nonce with
    | .error e => (.error (.verifying e), fs)
    | .ok payload =>
      match extractAtomically r.umask r.random fs payload outDir with
      | (.error e, fs) => (.error e, fs)
      | (.ok entries, fs) =>
        match reconcile entries transfer.inventory with
        | .error e => (.error (.reconciling e), fs)
        | .ok () => (.ok entries, fs)

/-- With frames that is what `runRecv` does. -/
lemma runRecv_eq {ed : Ed25519} (b3 : Blake3) (aead : Aead) (rq : RaptorQ) (r : Receiver ed)
    (manifest : Str) (frames : List Str) (fs : FileTree) (outDir : Path Component) :
    runRecv b3 aead rq r manifest frames fs outDir =
      match startReceiver ed b3 rq r.key r.signer manifest with
      | .error e => (.error e, fs)
      | .ok (transfer, dec) =>
        match receiveFromFrames b3 dec frames with
        | .error e => (.error e, fs)
        | .ok dec => finishRecv b3 aead r transfer dec fs outDir := rfl

inductive CaptureFailure (η : Type)
  | recv (e : RecvFailure)
  | capturing (e : RunError Empty η)

/-- The receiving command with a source of images. `capture` is what its reader comes to, for the
session that the manifest names and the decoder of that session. -/
def runRecvCapture {ed : Ed25519} {η : Type} (b3 : Blake3) (aead : Aead) {rq : RaptorQ}
    (r : Receiver ed) (d : FrameDirectory)
    (capture : Arr 16 → PipelineDecoder rq →
      Reading (PipelineDecoder rq) × Option (RunError Empty η))
    (fs : FileTree) (outDir : Path Component) :
    Except (CaptureFailure η) (List Pack.Entry) × FileTree :=
  match manifestIn d with
  | .error e => (.error (.recv e), fs)
  | .ok raw =>
    match startReceiver ed b3 rq r.key r.signer raw with
    | .error e => (.error (.recv (.receive e)), fs)
    | .ok (transfer, dec) =>
      match capture transfer.sessionId dec with
      | (_, some e) => (.error (.capturing e), fs)
      | (reading, none) =>
        match finishRecv b3 aead r transfer reading.handler fs outDir with
        | (.error e, fs) => (.error (.recv (.receive e)), fs)
        | (.ok entries, fs) => (.ok entries, fs)

/-! ### From one end to the other -/

namespace Capture
variable {Image η : Type} {rq : RaptorQ} {b3 : Blake3} {read : Image → Option Str} {r : Reader}

/-- Whichever way the reader runs, its consumer has been through the images it was given. -/
lemma Reader.Runs.followed {d₀ : PipelineDecoder rq} {ending : Ending η}
    {source images : List Image} {reading : Reading (PipelineDecoder rq)}
    {err : Option (RunError Empty η)}
    (h : r.Runs read (decoderHandler b3) ending source d₀ images reading err) :
    Followed b3 d₀ read r images reading := by
  cases h with
  | direct cancelled _ =>
    exact Followed.runDirect followed_start ending cancelled source
  | buffered _ hs hr =>
    apply hs.followed
    rw [hr]
    rfl

/-- A source that comes to its end leaves no error. -/
lemma Reader.runDirect_exhausted (cancelled : Bool) (images : List Image)
    (s : Reading (PipelineDecoder rq)) :
    (r.runDirect read (decoderHandler b3) (.exhausted : Ending η) cancelled images s).2 = none := by
  induction images generalizing s with
  | nil => rfl
  | cons img images ih =>
    rw [Reader.runDirect]
    dsimp only
    generalize hcounted : ({ s with stats := { s.stats with images := s.stats.images + 1 } } :
      Reading (PipelineDecoder rq)) = counted
    have hnone : (r.consume read (decoderHandler b3) img counted).2 = none := r.consume_snd img
    generalize r.consume read (decoderHandler b3) img counted = out at hnone
    obtain ⟨t, e⟩ := out
    subst hnone
    exact ih t

end Capture

section Screen
variable {ed : Ed25519} {b3 : Blake3} {aead : Aead} {rq : RaptorQ} {s : Sender ed}
  {flags : SendFlags} {fs : FileTree} {root : Path Component} {payload : Str}
  {entries : List Pack.Entry} {params : DhowSessionParams} {encoder : DhowEncoder}
  {manifest : DhowManifest} {r : Receiver ed}

/-- A decoder that is done with the ciphertext of a session ends the receiving command well. -/
lemma Sends.finishRecv_eq (hed : ed.Correct) (haead : aead.Correct)
    (hroot : fs.lookup root = some .dir)
    (h : Sends b3 aead rq s flags fs root payload entries params encoder manifest)
    (hkey : r.key = s.key) (hu : r.umask &&& 0o700 = 0) {dst : FileTree}
    {outDir : Path Component} (hready : Ready dst outDir r.random) {p : Pipeline}
    {ciphertext : Str} (hsession : encoderSession b3 aead s.key s.sessionId s.salt s.nonce params
      payload = .ok (p, ciphertext)) {dec : PipelineDecoder rq} (hcomplete : dec.isComplete = true)
    (hfinish : dec.finish b3 = .ok ciphertext) :
    ∃ extracted out, finishRecv b3 aead r
      ⟨s.sessionId, s.salt, s.nonce, encoder.params, inventoryOf entries⟩ dec dst outDir =
        (.ok extracted, out) ∧ Intact b3 fs root manifest.manifest out outDir := by
  obtain ⟨keys, hkeys, hc, -⟩ := encoderSession_eq_ok hsession
  obtain ⟨-, hdecrypt⟩ := decryptPayloadInPlace_of_encryptPayload haead hc
  obtain ⟨extracted, out, hextract, hreconcile, hintact⟩ :=
    h.exists_extracted hed hroot hu hready
  refine ⟨extracted, out, ?_, hintact⟩
  simp only [finishRecv, dhowDecoderFinish, hcomplete, hfinish, hkey, hkeys, hdecrypt, hextract,
    hreconcile, Bool.not_true, Bool.false_eq_true, if_false]

/-- The whole transfer over the screen: once a send has succeeded, its directory can be displayed if
its path is no pattern, and if each frame that was sent is legible in some image that the reader of a
receiver gets to, with any other images among them that the decoder accepts nothing else from, then
the receiver has the dataset. -/
theorem dataset_over_the_screen {γ δ Image η : Type} (draw : Option (Str → Except γ Str))
    (hed : ed.Correct) (haead : aead.Correct) (hroot : fs.lookup root = some .dir)
    (h : Sends b3 aead rq s flags fs root payload entries params encoder manifest)
    (hrq : ∀ p c, encoderSession b3 aead s.key s.sessionId s.salt s.nonce params payload =
      .ok (p, c) → p.RaptorQIdeal rq c ∧ p.DistinctPackets rq c)
    (hkey : r.key = s.key) (hsigner : r.signer = ed.publicOf s.identity)
    (hu : r.umask &&& 0o700 = 0) {dst : FileTree} {outDir : Path Component}
    (hready : Ready dst outDir r.random) {dir : Str} (hdir : hasMeta dir = false)
    (globbed : Except ListingError (List Str)) {d₀ d : FrameDirectory} (hd : Readable d₀)
    {cuts cuts' : List (Option Cut)}
    (hsent : runSendInto b3 aead rq s flags fs root draw cuts d₀ = (.ok (), cuts', d)) :
    ∃ shown, d.readFrames dir globbed = .ok shown ∧
      shown.Perm (encoder.frames ++ (leftNames d₀ encoder.frames.length).map (content d₀)) ∧
      ∀ (m : Display.Means δ) (cfg : Display.Config) (events : List Display.Select)
        (sampled : Image → List Qr.Grid) (source images : List Image) (dropLate : Bool)
        (ending : Ending η)
        (capture : Arr 16 → PipelineDecoder rq →
          Reading (PipelineDecoder rq) × Option (RunError Empty η)),
        m.codes.Standard →
        (∀ i frame, shown[i]? = some frame → frame ∈ encoder.frames →
          OpticalLink.Seen m cfg shown events sampled images i) →
        (∀ transfer dec, startReceiver ed b3 rq r.key r.signer manifest.bytes =
          .ok (transfer, dec) →
            (∀ bytes ∈ images.filterMap (OpticalLink.readSampled sampled),
              (∃ t outcome, ((dec.run b3 t).accept b3 bytes).1 = .ok outcome) →
                bytes ∈ encoder.frames) ∧
            (⟨⟨transfer.sessionId⟩, dropLate⟩ : Reader).Runs (OpticalLink.readSampled sampled)
              (decoderHandler b3) ending source dec images (capture transfer.sessionId dec).1
              none ∧
            (capture transfer.sessionId dec).2 = none) →
        ∃ extracted out, runRecvCapture b3 aead r d capture dst outDir = (.ok extracted, out) ∧
          Intact b3 fs root manifest.manifest out outDir := by
  rw [runSendInto_of_sends draw hroot h, Steps.mapError_eq_ok_iff] at hsent
  have hensures := ensures_writeSent draw encoder.frames manifest.bytes cuts d₀ rfl
  rw [hsent] at hensures
  obtain ⟨hwrote, hmanifest⟩ := hensures
  have hperm := hwrote.frameNames_perm.map (content d)
  rw [List.map_append, hwrote.content_frameName, hwrote.content_left] at hperm
  have hne := h.frames_ne_nil hed haead fun p c hs => (hrq p c hs).1
  refine ⟨_, hwrote.readFrames_eq hd hne hdir globbed, hperm, ?_⟩
  intro m cfg events sampled source images dropLate ending capture hstandard hseen hcapture
  obtain ⟨p, ciphertext, hsession, hframes, hstart⟩ :=
    startReceiver_of_build hed h.encodes h.signs h.admissible
  rw [← hkey, ← hsigner] at hstart
  obtain ⟨hgenuine, hruns, herr⟩ := hcapture _ _ hstart
  obtain ⟨keys, -, -, hnew⟩ := encoderSession_eq_ok hsession
  obtain ⟨hid, hparams, -⟩ := Pipeline.new_eq_ok hnew
  have hdigest : p.params.payloadDigest = blake3Digest b3 ciphertext := by
    rw [hparams]
    rfl
  have hread : ∀ frame ∈ encoder.frames, ∃ img ∈ images,
      OpticalLink.readSampled sampled img = some frame := by
    intro frame hframe
    obtain ⟨i, hi⟩ := List.mem_iff_getElem?.mp (hperm.mem_iff.mpr (List.mem_append_left _ hframe))
    exact (hseen i frame hi hframe).exists_image hstandard hi
  obtain ⟨hideal, hdistinct⟩ := hrq p ciphertext hsession
  obtain ⟨hcomplete, hfinish, -⟩ := hruns.followed.delivers hdigest hframes hideal hdistinct
    hid.symm hgenuine hread
  obtain ⟨extracted, out, hrecv, hintact⟩ :=
    h.finishRecv_eq hed haead hroot hkey hu hready hsession hcomplete hfinish
  refine ⟨extracted, out, ?_, hintact⟩
  have hpair : capture s.sessionId (.start rq p) =
      ((capture s.sessionId (.start rq p)).1, none) := Prod.ext rfl herr
  simp only [runRecvCapture, manifestIn, hmanifest, hstart]
  rw [hpair]
  simp only [hrecv]

end Screen

/-! ### A reference transfer -/

/-- The systematic packets of a block have different identifiers. -/
lemma Systematic.distinctPackets {p : Pipeline} {payload : Str}
    (h : p.RaptorQIdeal raptorq payload) : p.DistinctPackets raptorq payload := by
  intro block hb hs
  have hread : ∀ q ∈ p.packets raptorq payload block,
      (Packet.deserialize q.serialize).encodingSymbolId = q.encodingSymbolId := fun q hq =>
    congrArg Packet.encodingSymbolId ((h block hb hs).deserialize_serialize q hq)
  have hpre : ∀ q : Packet, u32le (u32At q.serialize 0) = q.serialize.take 4 := by
    intro q
    rw [u32le_u32At (by simp [Packet.serialize])]
    rfl
  have hid : ∀ q q' : Packet, u32At q.serialize 0 = u32At q'.serialize 0 →
      (Packet.deserialize q.serialize).encodingSymbolId =
        (Packet.deserialize q'.serialize).encodingSymbolId := by
    intro q q' heq
    have htake := (hpre q).symm.trans ((congrArg u32le heq).trans (hpre q'))
    have hbyte : ∀ (q : Packet) (i : ℕ), i < 4 →
        u8At q.serialize i = (q.serialize.take 4).getD i 0 := by
      intro q i hi
      rw [u8At, List.getD_eq_getElem?_getD, List.getD_eq_getElem?_getD, List.getElem?_take_of_lt hi]
    simp only [Packet.deserialize, hbyte q, hbyte q', htake, Nat.reduceLT]
  let cfg : Config := p.config raptorq block
  have hpackets : p.packets raptorq payload block =
      (List.range (cfg.symbolCount + p.repairCount)).map
        (symbol cfg (ChunkMap.blockBytes payload block)) := rfl
  rw [hpackets] at hread ⊢
  change (List.map (fun q : Packet => u32At q.serialize 0) (List.map (symbol cfg _) _)).Nodup
  rw [List.map_map]
  refine List.Nodup.map_on (fun i hi j hj heq => ?_) List.nodup_range
  have hi := hread _ (List.mem_map_of_mem hi)
  have hj := hread _ (List.mem_map_of_mem hj)
  exact hi.symm.trans ((hid _ _ heq).trans hj)

namespace OpticalLink

/-- The frames of the reference tree have codes. -/
lemma small_of_sends {payload : Str} {entries : List Pack.Entry} {encoder : DhowEncoder}
    {manifest : DhowManifest} (hlen : payload.length = 114)
    (h : Sends Reference.b3 XChaCha20Poly1305.aead Reference.rq Reference.sender Reference.flags
      Reference.tree [Reference.top] payload entries (Reference.planOf 64 3) encoder manifest)
    {shown : List Str} (hperm : shown.Perm encoder.frames) : Small shown := by
  obtain ⟨p, ciphertext, hsession, hframes, -⟩ :=
    startReceiver_of_build Reference.ed_correct h.encodes h.signs h.admissible
  have hideal := Reference.ideal_session hlen hsession
  obtain ⟨keys, -, -, hnew⟩ := encoderSession_eq_ok hsession
  have hsize : p.params.symbolSize = 64 := by
    rw [(Pipeline.new_eq_ok hnew).2.1]
    rfl
  constructor
  · intro hnil
    rw [hnil] at hperm
    exact h.frames_ne_nil Reference.ed_correct XChaCha20Poly1305.aead_correct
      (fun p c hs => Reference.ideal_session hlen hs) hperm.symm.eq_nil
  · intro frame hframe
    have hmem := hperm.mem_iff.mp hframe
    have hle := Pipeline.length_le_of_mem_encodeToBytes Systematic.aligned
      (fun block hb hs => (hideal block hb hs).length_serialize) hframes hmem
    rw [hsize] at hle
    exact ⟨ne_nil_of_mem_encodeToBytes hframes hmem, hle⟩

/-- The reader on the images of some frames, one after the other. -/
def referenceCapture (shown : List Str) (sessionId : Arr 16)
    (dec : PipelineDecoder Reference.rq) :
    Reading (PipelineDecoder Reference.rq) × Option (RunError Empty Empty) :=
  (⟨⟨sessionId⟩, false⟩ : Reader).runDirect (readSampled fun code : Optical.QRCode => [code.grid])
    (decoderHandler Reference.b3) .exhausted false (imagesOf shown) (.start dec)

end OpticalLink

/-- The reference tree, sent, displayed, captured and received. -/
theorem dataset_over_the_screen_reference : ∃ d shown extracted out,
    runSendInto (δ := Empty) Reference.b3 XChaCha20Poly1305.aead Reference.rq Reference.sender
      Reference.flags Reference.tree [Reference.top] none [] ∅ = (.ok (), [], d) ∧
    d.readFrames [0x61] (.error .noFrames) = .ok shown ∧
    runRecvCapture Reference.b3 XChaCha20Poly1305.aead Reference.receiver d
      (OpticalLink.referenceCapture shown) Reference.emptyDir [Reference.note] =
        (.ok extracted, out) ∧
    ∀ p, (out.lookup (Reference.note :: p)).bind nodeView =
      (Reference.tree.lookup (Reference.top :: p)).bind nodeView := by
  obtain ⟨payload, entries, encoder, manifest, d, hlen, h, hrun⟩ := Reference.exists_directory
  obtain ⟨shown, hshown, hperm, hscreen⟩ := dataset_over_the_screen (δ := Empty) (η := Empty)
    (none : Option (Str → Except Empty Str)) Reference.ed_correct XChaCha20Poly1305.aead_correct
    Reference.lookup_top h (r := Reference.receiver) (fun p c hs =>
      ⟨Reference.ideal_session hlen hs,
        Systematic.distinctPackets (Reference.ideal_session hlen hs)⟩) rfl rfl (by decide)
    Reference.ready hasMeta_a (.error .noFrames)
    (fun name _ => plain_empty name) hrun
  rw [show leftNames ∅ encoder.frames.length = [] by simp [leftNames], List.map_nil,
    List.append_nil] at hperm
  have hsmall := OpticalLink.small_of_sends hlen h hperm
  have hgenuine : ∀ bytes ∈ (OpticalLink.imagesOf shown).filterMap
      (OpticalLink.readSampled fun code : Optical.QRCode => [code.grid]),
      bytes ∈ encoder.frames := fun bytes hbytes =>
    hperm.mem_iff.mp (OpticalLink.genuine_imagesOf hbytes)
  have hruns : ∀ sessionId dec, (⟨⟨sessionId⟩, false⟩ : Reader).Runs
      (OpticalLink.readSampled fun code : Optical.QRCode => [code.grid])
      (decoderHandler Reference.b3) (.exhausted : Ending Empty) (OpticalLink.imagesOf shown) dec
      (OpticalLink.imagesOf shown) (OpticalLink.referenceCapture shown sessionId dec).1
      (OpticalLink.referenceCapture shown sessionId dec).2 := fun sessionId dec =>
    .direct false rfl
  have hnone : ∀ sessionId dec, (OpticalLink.referenceCapture shown sessionId dec).2 = none :=
    fun sessionId dec => Reader.runDirect_exhausted false _ _
  obtain ⟨extracted, out, hrecv, hintact⟩ := hscreen OpticalLink.referenceMeans
    OpticalLink.referenceConfig (List.replicate shown.length .due)
    (fun code : Optical.QRCode => [code.grid]) (OpticalLink.imagesOf shown)
    (OpticalLink.imagesOf shown) false .exhausted (OpticalLink.referenceCapture shown)
    OpticalLink.standard_reference
    (fun i frame hi _ => hsmall.seen (List.getElem?_eq_some_iff.mp hi).1) fun transfer dec _ =>
      ⟨fun bytes hbytes _ => hgenuine bytes hbytes,
        hnone transfer.sessionId dec ▸ hruns transfer.sessionId dec,
        hnone transfer.sessionId dec⟩
  exact ⟨d, shown, extracted, out, hrun, hshown, hrecv, hintact.view_eq⟩

end Dhow
